/-
Where a frame ends is said by its header. So bytes that are read as a frame are refused as cut off when
some of them are missing, and as malformed when there are more of them. The number of bytes that a
refusal asks for is never more than what is missing. A reader of a stream who goes on by just that
number comes to the end of the frame, and not past it (`Asks`).
-/
import Mathlib.Logic.Relation
import GroupReplication.Proofs.Frame.Burst
import GroupReplication.Proofs.Frame.Limits

namespace GroupReplication.Frame

variable {bs front : Bytes} {f : Frame}

/-! ## Three lengths -/

/-- As long as there is no whole header with its checksum, that much is asked for. -/
theorem decode_of_short (h : bs.length < headerLength + trailerLength) :
    decode bs = .error (.truncated .envelope (headerLength + trailerLength - bs.length)) := by
  rw [decode, if_pos h]
  rfl

theorem decode_of_cut (h : headerLength + trailerLength ≤ bs.length)
    (hcut : bs.length < headerLength + bodyLength bs + trailerLength) :
    decode bs = .error (.truncated .envelopeBody
      (headerLength + bodyLength bs + trailerLength - bs.length)) := by
  rw [decode, if_neg (by omega)]
  dsimp only
  rw [if_pos hcut]
  rfl

theorem decode_of_beyond (h : headerLength + bodyLength bs + trailerLength < bs.length) :
    decode bs = .error (.malformed
      (.trailingBytes (bs.length - (headerLength + bodyLength bs + trailerLength)))) := by
  rw [decode, if_neg (by omega)]
  dsimp only
  rw [if_neg (by omega), if_pos h]
  rfl

/-- The header says the same of all bytes that it leads. -/
theorem bodyLength_of_prefix (h : front <+: bs) (hheader : headerLength ≤ front.length) :
    bodyLength front = bodyLength bs := by
  rw [headerLength] at hheader
  obtain ⟨rest, rfl⟩ := h
  rw [bodyLength, bodyLength, List.drop_append_of_le_length (by omega),
    List.take_append_of_le_length (by rw [List.length_drop]; omega)]

/-! ## Missing bytes and stray bytes -/

/-- A proper prefix is refused as cut off. -/
theorem decode_prefix (h : decode bs = .ok f) (hpart : front <+: bs) (hproper : front ≠ bs) :
    ∃ field needed, decode front = .error (.truncated field needed) ∧ 1 ≤ needed ∧
      needed ≤ bs.length - front.length ∧
      (headerLength + trailerLength ≤ front.length → needed = bs.length - front.length) := by
  obtain ⟨hlength, -⟩ := decode_eq_ok h
  have hmissing : front.length < bs.length :=
    Nat.lt_of_le_of_ne hpart.length_le fun heq => hproper (hpart.eq_of_length heq)
  by_cases hshort : front.length < headerLength + trailerLength
  · exact ⟨_, _, decode_of_short hshort, by omega, by omega, fun hlong => by omega⟩
  · have hbody := bodyLength_of_prefix hpart (by omega)
    refine ⟨_, _, decode_of_cut (by omega) (by omega), ?_, ?_, fun _ => ?_⟩ <;> omega

/-- A proper extension is refused for what comes behind the frame. -/
theorem decode_extended (h : decode bs = .ok f) {extra : Bytes} (hextra : extra ≠ []) :
    decode (bs ++ extra) = .error (.malformed (.trailingBytes extra.length)) := by
  obtain ⟨hlength, -⟩ := decode_eq_ok h
  have hbody := bodyLength_of_prefix (List.prefix_append bs extra) (by omega)
  have hmore := List.length_pos_iff.2 hextra
  have htotal : (bs ++ extra).length = bs.length + extra.length := List.length_append
  rw [decode_of_beyond (by omega)]
  congr 3
  omega

/-! ## Reading from a stream -/

/-- A reader who has the first `n` bytes of a stream is told that bytes are missing, and reads as many
more as needed, up to `m`. -/
def Asks (stream : Bytes) (n m : Nat) : Prop :=
  ∃ field needed, decode (stream.take n) = .error (.truncated field needed) ∧ m = n + needed

variable {rest : Bytes} {n m : Nat}

/-- Short of the end of a frame the reader is asked to go on, and not past that end. -/
theorem exists_asks (rest : Bytes) (h : decode bs = .ok f) (hn : n < bs.length) :
    ∃ m, Asks (bs ++ rest) n m ∧ n < m ∧ m ≤ bs.length := by
  have hfront : (bs ++ rest).take n = bs.take n := List.take_append_of_le_length (Nat.le_of_lt hn)
  have hlength : (bs.take n).length = n := List.length_take_of_le (Nat.le_of_lt hn)
  obtain ⟨field, needed, hcut, hpos, hle, -⟩ := decode_prefix h (List.take_prefix n bs) fun heq => by
    rw [heq] at hlength
    omega
  exact ⟨n + needed, ⟨field, needed, hfront ▸ hcut, rfl⟩, by omega, by omega⟩

/-- At the end of the frame the reader has it, and is not asked for more. -/
theorem not_asks (h : decode bs = .ok f) : ¬ Asks (bs ++ rest) bs.length m := by
  rintro ⟨field, needed, hcut, -⟩
  rw [List.take_left, h] at hcut
  cases hcut

theorem Asks.unique {stream : Bytes} {m' : Nat} (h : Asks stream n m) (h' : Asks stream n m') :
    m = m' := by
  obtain ⟨field, needed, hcut, rfl⟩ := h
  obtain ⟨field', needed', hcut', rfl⟩ := h'
  rw [hcut] at hcut'
  cases hcut'
  rfl

/-- One step of the reader stays within the frame. -/
theorem Asks.le (h : decode bs = .ok f) (hn : n ≤ bs.length) (hasks : Asks (bs ++ rest) n m) :
    m ≤ bs.length := by
  rcases Nat.lt_or_eq_of_le hn with hlt | rfl
  · obtain ⟨m', hasks', -, hle⟩ := exists_asks rest h hlt
    rw [hasks.unique hasks']
    exact hle
  · exact absurd hasks (not_asks h)

theorem asks_within (h : decode bs = .ok f) (hn : n ≤ bs.length)
    (hreads : Relation.ReflTransGen (Asks (bs ++ rest)) n m) : m ≤ bs.length := by
  induction hreads with
  | refl => exact hn
  | tail _ hasks ih => exact hasks.le h ih

theorem asks_to_end (h : decode bs = .ok f) (hn : n ≤ bs.length) :
    Relation.ReflTransGen (Asks (bs ++ rest)) n bs.length := by
  induction hmissing : bs.length - n using Nat.strongRecOn generalizing n with
  | ind missing ih =>
    rcases Nat.lt_or_eq_of_le hn with hlt | rfl
    · obtain ⟨m, hasks, hmore, hle⟩ := exists_asks rest h hlt
      exact .head hasks (ih (bs.length - m) (by omega) hle rfl)
    · exact .refl

/-- Frames are self-delimiting. When bytes are read as a frame, every proper prefix of them is refused
as cut off, and asks for at least one byte and for no more than are missing: for just those once it has
a header and the length of a checksum. Every proper extension is refused as malformed. And whatever
follows the frame in a stream, a reader who reads as many bytes as needed gets to the end of the frame,
has the frame there, and never gets past it. -/
theorem self_delimiting (h : decode bs = .ok f) :
    (∀ front, front <+: bs → front ≠ bs → ∃ field needed,
      decode front = .error (.truncated field needed) ∧ 1 ≤ needed ∧
        needed ≤ bs.length - front.length ∧
        (10 ≤ front.length → needed = bs.length - front.length)) ∧
    (∀ extra, extra ≠ [] → ∃ cause, decode (bs ++ extra) = .error (.malformed cause)) ∧
    ∀ rest n, n ≤ bs.length →
      Relation.ReflTransGen (Asks (bs ++ rest)) n bs.length ∧
      decode ((bs ++ rest).take bs.length) = .ok f ∧
      ∀ m, Relation.ReflTransGen (Asks (bs ++ rest)) n m → m ≤ bs.length := by
  refine ⟨fun front hpart hproper => decode_prefix h hpart hproper,
    fun extra hextra => ⟨_, decode_extended h hextra⟩, fun rest n hn => ⟨asks_to_end h hn, ?_, ?_⟩⟩
  · rw [List.take_left]
    exact h
  · exact fun m hreads => asks_within h hn hreads

/-- A batch in a stream, with an acknowledgement behind it. Of the batch the first seven bytes came. -/
theorem self_delimiting_batch : ∃ bs, decode bs = .ok (batchOf [1, 2]) ∧ bs.length = 68 ∧
    (∃ field needed, decode (bs.take 7) = .error (.truncated field needed) ∧ 1 ≤ needed ∧
      needed ≤ 61) ∧
    (∃ cause, decode (bs ++ acknowledgement 0 163 172 3) = .error (.malformed cause)) ∧
    Relation.ReflTransGen (Asks (bs ++ acknowledgement 0 163 172 3)) 7 68 := by
  have hread : ((batchOf [1, 2]).encode >>= decode) = .ok (batchOf [1, 2]) :=
    Action.eq_ok_of_toOption (by decide +kernel)
  obtain ⟨bs, hbs, hread⟩ := bind_eq_ok hread
  have hlength : bs.length = 68 := by
    have hsize : (batchOf [1, 2]).encode.toOption.map List.length = some 68 := by decide +kernel
    rw [hbs] at hsize
    exact Option.some.inj hsize
  obtain ⟨hcut, hextended, hreader⟩ := self_delimiting hread
  have hseven : (bs.take 7).length = 7 := List.length_take_of_le (by omega)
  obtain ⟨field, needed, hneeded, hpos, hle, -⟩ := hcut (bs.take 7) (List.take_prefix 7 bs) fun heq => by
    rw [heq] at hseven
    omega
  have hend := (hreader (acknowledgement 0 163 172 3) 7 (by omega)).1
  rw [hlength] at hend
  exact ⟨bs, hread, hlength, ⟨field, needed, hneeded, hpos, by omega⟩,
    hextended _ (List.cons_ne_nil _ _), hend⟩

end GroupReplication.Frame
