/-
Text held in bytes. Reading accepts exactly the bytes that writing produces; for all others
it names the first place where the bytes stop being text.
-/
import GroupReplication.Bytes

namespace GroupReplication

/-- Where bytes stop being text. `badLength` counts the bytes of the offending sequence, and
is `none` when the bytes end inside a sequence that was valid so far. -/
structure Utf8Fault where
  validUpTo : Nat
  badLength : Option Nat
  deriving Repr, DecidableEq

namespace Utf8Fault

def message (f : Utf8Fault) : String :=
  match f.badLength with
  | some n => s!"invalid utf-8 sequence of {n} bytes from index {f.validUpTo}"
  | none => s!"incomplete utf-8 byte sequence from index {f.validUpTo}"

end Utf8Fault

namespace Utf8

/-- What stands at the front of a byte string. -/
inductive Lead where
  | whole (length : Nat)
  | bad (length : Nat)
  | cut
  deriving Repr, DecidableEq

def isContinuation (b : UInt8) : Bool := 0x80 ≤ b && b ≤ 0xBF

/-- The second bytes that may follow the first byte of a sequence of three or four bytes:
shorter spellings, surrogates and numbers past the last code point are excluded here. -/
def mayFollow (first second : UInt8) : Bool :=
  if first = 0xE0 then 0xA0 ≤ second && second ≤ 0xBF
  else if first = 0xED then 0x80 ≤ second && second ≤ 0x9F
  else if first = 0xF0 then 0x90 ≤ second && second ≤ 0xBF
  else if first = 0xF4 then 0x80 ≤ second && second ≤ 0x8F
  else isContinuation second

def lead (first : UInt8) (rest : Bytes) : Lead :=
  if first < 0x80 then .whole 1
  else if first < 0xC2 then .bad 1
  else if first < 0xE0 then
    match rest with
    | [] => .cut
    | b :: _ => if isContinuation b then .whole 2 else .bad 1
  else if first < 0xF0 then
    match rest with
    | [] => .cut
    | b :: rest =>
      if mayFollow first b then
        match rest with
        | [] => .cut
        | c :: _ => if isContinuation c then .whole 3 else .bad 2
      else .bad 1
  else if first < 0xF5 then
    match rest with
    | [] => .cut
    | b :: rest =>
      if mayFollow first b then
        match rest with
        | [] => .cut
        | c :: rest =>
          if isContinuation c then
            match rest with
            | [] => .cut
            | d :: _ => if isContinuation d then .whole 4 else .bad 3
          else .bad 2
      else .bad 1
  else .bad 1

/-- The first fault from position `at` on; `skip` bytes still belong to the sequence before. -/
def faultFrom : (skip position : Nat) → Bytes → Utf8Fault
  | _, position, [] => ⟨position, none⟩
  | skip + 1, position, _ :: rest => faultFrom skip (position + 1) rest
  | 0, position, b :: rest =>
    match lead b rest with
    | .whole n => faultFrom (n - 1) (position + 1) rest
    | .bad n => ⟨position, some n⟩
    | .cut => ⟨position, none⟩

def encode (s : String) : Bytes := s.toUTF8.data.toList

def decode (bs : Bytes) : Except Utf8Fault String :=
  match String.fromUTF8? ⟨bs.toArray⟩ with
  | some s => .ok s
  | none => .error (faultFrom 0 0 bs)

theorem decode_eq_ok_iff {bs : Bytes} {s : String} : decode bs = .ok s ↔ bs = encode s := by
  constructor
  · intro h
    unfold decode at h
    split at h
    · rename_i t ht
      simp only [String.fromUTF8?] at ht
      split at ht <;> simp_all
      subst ht
      simp [encode, String.fromUTF8]
    · cases h
  · rintro rfl
    have hv : ByteArray.IsValidUTF8 ⟨(encode s).toArray⟩ := by
      simpa [encode] using s.isValidUTF8
    simp only [decode, String.fromUTF8?, dif_pos hv]
    simp [encode, String.fromUTF8]

@[simp] theorem decode_encode (s : String) : decode (encode s) = .ok s :=
  decode_eq_ok_iff.2 rfl

end Utf8

end GroupReplication
