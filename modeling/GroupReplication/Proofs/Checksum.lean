/-
What the checksum finds out: byte strings that differ only within four neighbouring bytes have
different checksums.

The highest bit of the polynomial is set, so a step of the register shows in the highest bit of the
next one whether the polynomial went in. For as long as that bit is not shifted out, which is for
32 steps, registers that end alike must have had the same bits go in.

A register is put out by the checksum that is taken from it, so all byte strings that end with their
checksum have one and the same checksum themselves. What is said of changes in the bytes that a
checksum covers therefore holds of changes in it and across its border as well.
-/
import GroupReplication.Checksum

namespace GroupReplication.Checksum

/-- The register after one more bit went in. -/
def next (r : UInt32) (bit : Bool) : UInt32 :=
  if (r &&& 1 == 1) == bit then r >>> 1 else (r >>> 1) ^^^ 0xEDB88320

/-- The polynomial goes in with this bit. -/
def feedback (r : UInt32) (bit : Bool) : Bool := r.toBitVec.getLsbD 0 ^^ bit

theorem shiftIn_cons (r : UInt32) (bit : Bool) (bits : List Bool) :
    shiftIn r (bit :: bits) = shiftIn (next r bit) bits := by
  rw [shiftIn, next]
  split
  · rfl
  · rfl

theorem shiftIn_append (r : UInt32) (front back : List Bool) :
    shiftIn r (front ++ back) = shiftIn (shiftIn r front) back := by
  induction front generalizing r with
  | nil => rfl
  | cons bit front ih => rw [List.cons_append, shiftIn_cons, shiftIn_cons, ih]

theorem low_bit (r : UInt32) : (r &&& 1 == 1) = r.toBitVec.getLsbD 0 := by
  rw [Bool.eq_iff_iff, beq_iff_eq, ← UInt32.toNat_inj, UInt32.toNat_and, BitVec.getLsbD,
    UInt32.toNat_toBitVec, Nat.testBit_zero, decide_eq_true_iff]
  show r.toNat &&& 1 = 1 ↔ _
  rw [Nat.and_one_is_mod]

/-- The bits of the next register. -/
theorem getLsbD_next (r : UInt32) (bit : Bool) (i : Nat) :
    (next r bit).toBitVec.getLsbD i
      = (r.toBitVec.getLsbD (i + 1) ^^ (feedback r bit && (0xEDB88320#32).getLsbD i)) := by
  rw [next, low_bit, feedback]
  cases hbit : r.toBitVec.getLsbD 0 <;> cases bit <;> simp [Nat.add_comm]

theorem feedback_eq (r : UInt32) (bit : Bool) :
    (next r bit).toBitVec.getLsbD 31 = feedback r bit := by
  rw [getLsbD_next, BitVec.getLsbD_of_ge _ _ (by decide),
    show (0xEDB88320#32).getLsbD 31 = true by decide]
  simp

/-- Equal bits that go into different registers leave them different. -/
theorem shiftIn_injective {r r' : UInt32} {bits : List Bool}
    (h : shiftIn r bits = shiftIn r' bits) : r = r' := by
  induction bits generalizing r r' with
  | nil => exact h
  | cons bit bits ih =>
    rw [shiftIn_cons, shiftIn_cons] at h
    have hnext := ih h
    have hfeedback : feedback r bit = feedback r' bit := by
      rw [← feedback_eq, ← feedback_eq, hnext]
    refine UInt32.toBitVec_inj.1 (BitVec.eq_of_getLsbD_eq fun i hi => ?_)
    cases i with
    | zero => simpa [feedback] using hfeedback
    | succ i =>
      have hbit := getLsbD_next r bit i
      rw [hnext, getLsbD_next, hfeedback] at hbit
      simpa using hbit.symm

/-- Registers that end alike after few bits agree in what these bits have not shifted out. -/
theorem agree_above {bits bits' : List Bool} (hlen : bits.length = bits'.length)
    (hshort : bits.length ≤ 32) {r r' : UInt32} (h : shiftIn r bits = shiftIn r' bits') {i : Nat}
    (hi : bits.length ≤ i) : r.toBitVec.getLsbD i = r'.toBitVec.getLsbD i := by
  induction bits generalizing bits' r r' i with
  | nil =>
    cases bits' with
    | nil =>
      rw [show r = r' from h]
    | cons _ _ => cases hlen
  | cons bit bits ih =>
    cases bits' with
    | nil => cases hlen
    | cons bit' bits' =>
      rw [shiftIn_cons, shiftIn_cons] at h
      rw [List.length_cons] at hshort hi
      have hagree : ∀ {j}, bits.length ≤ j →
          (next r bit).toBitVec.getLsbD j = (next r' bit').toBitVec.getLsbD j :=
        fun hj => ih (Nat.succ.inj hlen) (by omega) h hj
      have hfeedback : feedback r bit = feedback r' bit' := by
        rw [← feedback_eq, ← feedback_eq]
        exact hagree (by omega)
      have hbit := hagree (j := i - 1) (by omega)
      rw [getLsbD_next, getLsbD_next, hfeedback, Nat.sub_add_cancel (by omega)] at hbit
      simpa using hbit

/-- At most 32 different bits that go into one register leave it different. -/
theorem bits_eq_of_shiftIn {bits bits' : List Bool} (hlen : bits.length = bits'.length)
    (hshort : bits.length ≤ 32) {r : UInt32} (h : shiftIn r bits = shiftIn r bits') :
    bits = bits' := by
  induction bits generalizing bits' r with
  | nil =>
    cases bits' with
    | nil => rfl
    | cons _ _ => cases hlen
  | cons bit bits ih =>
    cases bits' with
    | nil => cases hlen
    | cons bit' bits' =>
      rw [List.length_cons] at hshort
      rw [shiftIn_cons, shiftIn_cons] at h
      have hfeedback : feedback r bit = feedback r bit' := by
        rw [← feedback_eq, ← feedback_eq]
        exact agree_above (Nat.succ.inj hlen) (by omega) h (by omega)
      have hbit : bit = bit' := by simpa [feedback] using hfeedback
      subst hbit
      rw [ih (Nat.succ.inj hlen) (by omega) h]

/-- Where a register ends depends only on how its bits differ from those that go in. -/
theorem shiftIn_eq_of_xor {bits bits' : List Bool} (hlen : bits.length = bits'.length) {r r' : UInt32}
    (h : ∀ i, (r.toBitVec.getLsbD i ^^ bits.getD i false)
      = (r'.toBitVec.getLsbD i ^^ bits'.getD i false)) : shiftIn r bits = shiftIn r' bits' := by
  induction bits generalizing bits' r r' with
  | nil =>
    cases bits' with
    | nil =>
      refine UInt32.toBitVec_inj.1 (BitVec.eq_of_getLsbD_eq fun i _ => ?_)
      simpa [shiftIn] using h i
    | cons _ _ => cases hlen
  | cons bit bits ih =>
    cases bits' with
    | nil => cases hlen
    | cons bit' bits' =>
      have hfeedback : feedback r bit = feedback r' bit' := h 0
      rw [shiftIn_cons, shiftIn_cons]
      refine ih (Nat.succ.inj hlen) fun i => ?_
      have hbit := h (i + 1)
      rw [List.getD_cons_succ, List.getD_cons_succ] at hbit
      rw [getLsbD_next, getLsbD_next, hfeedback, Bool.xor_right_comm, hbit, Bool.xor_right_comm]

/-! ## Bytes -/

theorem length_bits (b : UInt8) : (bits b).length = 8 := by simp [bits]

theorem bits_injective {b b' : UInt8} (h : bits b = bits b') : b = b' := by
  refine UInt8.toNat_inj.1 (Nat.eq_of_testBit_eq fun i => ?_)
  by_cases hi : i < 8
  · exact List.map_inj_left.1 h i (List.mem_range.2 hi)
  · have hpow : 2 ^ 8 ≤ 2 ^ i := Nat.pow_le_pow_right (by decide) (Nat.le_of_not_lt hi)
    rw [Nat.testBit_lt_two_pow (Nat.lt_of_lt_of_le b.toNat_lt hpow),
      Nat.testBit_lt_two_pow (Nat.lt_of_lt_of_le b'.toNat_lt hpow)]

theorem length_flatMap_bits (bs : Bytes) : (bs.flatMap bits).length = 8 * bs.length := by
  induction bs with
  | nil => rfl
  | cons b bs ih =>
    rw [List.flatMap_cons, List.length_append, length_bits, ih, List.length_cons]
    omega

theorem flatMap_bits_injective {bs bs' : Bytes} (hlen : bs.length = bs'.length)
    (h : bs.flatMap bits = bs'.flatMap bits) : bs = bs' := by
  induction bs generalizing bs' with
  | nil => exact (List.length_eq_zero_iff.1 hlen.symm).symm
  | cons b bs ih =>
    cases bs' with
    | nil => cases hlen
    | cons b' bs' =>
      rw [List.flatMap_cons, List.flatMap_cons] at h
      obtain ⟨hbyte, hrest⟩ := List.append_inj h (by rw [length_bits, length_bits])
      rw [bits_injective hbyte, ih (Nat.succ.inj hlen) hrest]

theorem flatMap_bits_littleEndian (width n : Nat) :
    (littleEndian width n).flatMap bits = (List.range (8 * width)).map n.testBit := by
  induction width generalizing n with
  | zero => rfl
  | succ width ih =>
    have hlow : bits (UInt8.ofNat n) = (List.range 8).map n.testBit := by
      refine List.map_congr_left fun i hi => ?_
      rw [UInt8.toNat_ofNat', Nat.testBit_mod_two_pow, decide_eq_true (List.mem_range.1 hi),
        Bool.true_and]
    have hhigh : (List.range (8 * width)).map (n / 256).testBit
        = ((List.range (8 * width)).map (8 + ·)).map n.testBit := by
      rw [List.map_map]
      refine List.map_congr_left fun i _ => ?_
      rw [show (256 : Nat) = 2 ^ 8 from rfl, Nat.testBit_div_two_pow, Function.comp_apply, Nat.add_comm]
    rw [littleEndian, List.flatMap_cons, ih, hlow, hhigh, ← List.map_append, ← List.range_add,
      Nat.mul_succ, Nat.add_comm]

/-- Within four neighbouring bytes no change goes unnoticed. -/
theorem eq_of_crc32 {front back bs bs' : Bytes} (hlen : bs.length = bs'.length)
    (hshort : bs.length ≤ 4) (h : crc32 (front ++ bs ++ back) = crc32 (front ++ bs' ++ back)) :
    bs = bs' := by
  have hall : shiftIn 0xFFFFFFFF ((front ++ bs ++ back).flatMap bits)
      = shiftIn 0xFFFFFFFF ((front ++ bs' ++ back).flatMap bits) :=
    (UInt32.xor_left_inj _).1 h
  simp only [List.flatMap_append, shiftIn_append] at hall
  refine flatMap_bits_injective hlen (bits_eq_of_shiftIn ?_ ?_ (shiftIn_injective hall))
  · rw [length_flatMap_bits, length_flatMap_bits, hlen]
  · rw [length_flatMap_bits]
    omega

/-- Byte strings of one length that agree but for the `width` bytes from `start` on. -/
structure SameOutside (start width : Nat) (bs bs' : Bytes) : Prop where
  length_eq : bs'.length = bs.length
  inside : ∀ i, bs'[i]? ≠ bs[i]? → start ≤ i ∧ i < start + width

theorem sameOutside_set (bs : Bytes) (i : Nat) (b : UInt8) : SameOutside i 1 bs (bs.set i b) where
  length_eq := List.length_set
  inside j hj := by
    by_cases hij : i = j
    · omega
    · exact absurd (List.getElem?_set_ne hij) hj

theorem SameOutside.eq_of_crc32 {start width : Nat} {bs bs' : Bytes} (h : SameOutside start width bs bs')
    (hshort : width ≤ 4) (hcrc : crc32 bs' = crc32 bs) : bs' = bs := by
  have hfront : bs'.take start = bs.take start := by
    refine List.ext_getElem? fun i => ?_
    by_cases hi : i < start
    · rw [List.getElem?_take_of_lt hi, List.getElem?_take_of_lt hi]
      exact Decidable.of_not_not fun hne => absurd (h.inside i hne).1 (by omega)
    · rw [List.getElem?_take_eq_none (by omega), List.getElem?_take_eq_none (by omega)]
  have hback : bs'.drop (start + width) = bs.drop (start + width) := by
    refine List.ext_getElem? fun i => ?_
    rw [List.getElem?_drop, List.getElem?_drop]
    exact Decidable.of_not_not fun hne => absurd (h.inside _ hne).2 (by omega)
  have hsplit : ∀ cs : Bytes,
      cs.take start ++ (cs.drop start).take width ++ cs.drop (start + width) = cs := fun cs => by
    rw [← List.drop_drop, List.append_assoc, List.take_append_drop, List.take_append_drop]
  have hinside : (bs'.drop start).take width = (bs.drop start).take width := by
    have hlength := h.length_eq
    have hsame : crc32 (bs.take start ++ (bs'.drop start).take width ++ bs.drop (start + width))
        = crc32 (bs.take start ++ (bs.drop start).take width ++ bs.drop (start + width)) := by
      rw [hsplit bs, ← hfront, ← hback, hsplit bs', hcrc]
    exact Checksum.eq_of_crc32 (by simp only [List.length_take, List.length_drop, hlength])
      (Nat.le_trans (List.length_take_le _ _) hshort) hsame
  rw [← hsplit bs', hfront, hback, hinside, hsplit]

/-! ## Byte strings that end with their checksum -/

/-- The last four bytes are the checksum of the first `n`. -/
def Ends (n : Nat) (bs : Bytes) : Prop :=
  UInt32.ofNat (ofLittleEndian (bs.drop n)) = crc32 (bs.take n)

instance (n : Nat) (bs : Bytes) : Decidable (Ends n bs) := inferInstanceAs (Decidable (_ = _))

theorem ends_append (bs : Bytes) : Ends bs.length (bs ++ littleEndian 4 (crc32 bs).toNat) := by
  rw [Ends, List.drop_left, List.take_left,
    ofLittleEndian_littleEndian 4 _ (by simpa using UInt32.toNat_lt _), UInt32.ofNat_toNat]

theorem Ends.eq_append {n : Nat} {bs : Bytes} (h : Ends n bs) (hlength : bs.length = n + 4) :
    bs = bs.take n ++ littleEndian 4 (crc32 (bs.take n)).toNat := by
  have hsize : (bs.drop n).length = 4 := by
    rw [List.length_drop]
    omega
  have hlt := ofLittleEndian_lt (bs.drop n)
  have hspelled := littleEndian_ofLittleEndian (bs.drop n)
  rw [hsize] at hlt hspelled
  rw [← (h : UInt32.ofNat _ = _), UInt32.toNat_ofNat_of_lt' (by simpa using hlt), hspelled,
    List.take_append_drop]

theorem getD_map_range (f : Nat → Bool) (n i : Nat) :
    ((List.range n).map f).getD i false = (decide (i < n) && f i) := by
  by_cases hi : i < n <;> simp [List.getD_eq_getElem?_getD, hi]

/-- Each bit of a register meets its opposite in the checksum that is taken from it. -/
theorem shiftIn_own_checksum (r : UInt32) :
    shiftIn r ((littleEndian 4 (r ^^^ 0xFFFFFFFF).toNat).flatMap bits)
      = shiftIn 0xFFFFFFFF ((List.range 32).map fun _ => false) := by
  rw [flatMap_bits_littleEndian]
  refine shiftIn_eq_of_xor (by simp) fun i => ?_
  have hones : (0xFFFFFFFF : UInt32).toBitVec.getLsbD i = decide (i < 32) := by
    rw [show (0xFFFFFFFF : UInt32).toBitVec = BitVec.allOnes 32 by decide, BitVec.getLsbD_allOnes]
  have hword : (r ^^^ 0xFFFFFFFF).toNat.testBit i
      = (r.toBitVec.getLsbD i ^^ decide (i < 32)) := by
    rw [← hones, ← BitVec.getLsbD_xor, ← UInt32.toBitVec_xor]
    rfl
  rw [getD_map_range, getD_map_range, hword, hones]
  by_cases hi : i < 32
  · simp only [hi, decide_true, Bool.true_and, Bool.xor_false, Bool.xor_true, Bool.xor_not_self]
  · rw [BitVec.getLsbD_of_ge _ _ (Nat.le_of_not_lt hi)]
    simp only [hi, decide_false, Bool.false_and, Bool.xor_false]

/-- Bytes that end with their checksum all have the same checksum. -/
theorem crc32_of_ends {n : Nat} {bs : Bytes} (hlen : bs.length = n + 4) (hends : Ends n bs) :
    crc32 bs = 0x2144DF1C := by
  have hback : bs.drop n = littleEndian 4 (crc32 (bs.take n)).toNat := by
    have hfour : (bs.drop n).length = 4 := by rw [List.length_drop, hlen, Nat.add_sub_cancel_left]
    have hlt := ofLittleEndian_lt (bs.drop n)
    rw [hfour] at hlt
    rw [← show _ = crc32 (bs.take n) from hends, UInt32.toNat_ofNat_of_lt' hlt, ← hfour,
      littleEndian_ofLittleEndian]
  have hall : crc32 (bs.take n ++ littleEndian 4 (crc32 (bs.take n)).toNat) = 0x2144DF1C := by
    rw [crc32, List.flatMap_append, shiftIn_append, crc32, shiftIn_own_checksum]
    decide +kernel
  rwa [← hback, List.take_append_drop] at hall

/-- A change within four neighbouring bytes breaks the agreement, whether they lie before the checksum,
in it or across its border. -/
theorem SameOutside.eq_of_ends {n start width : Nat} {bs bs' : Bytes}
    (h : SameOutside start width bs bs') (hshort : width ≤ 4) (hlen : bs.length = n + 4)
    (hends : Ends n bs) (hagain : Ends n bs') : bs' = bs := by
  refine h.eq_of_crc32 hshort ?_
  rw [crc32_of_ends (h.length_eq.trans hlen) hagain, crc32_of_ends hlen hends]

/-- A single changed byte breaks the agreement, wherever it is. -/
theorem not_ends_set {n i : Nat} {bs : Bytes} {b : UInt8} (hlen : bs.length = n + 4)
    (hends : Ends n bs) (hset : bs.set i b ≠ bs) : ¬ Ends n (bs.set i b) := fun hagain =>
  hset ((sameOutside_set bs i b).eq_of_ends (by decide) hlen hends hagain)

end GroupReplication.Checksum
