/-
Bytes that were changed on the way. A frame says its own length, so a change of the length shows in
the number of bytes that came; every other change within four neighbouring bytes shows in the
checksum, also when the checksum itself is among them.
-/
import GroupReplication.Proofs.Frame.Envelope

namespace GroupReplication.Frame

/-- What is written for a frame says its length and ends with its checksum. -/
theorem ends_encode {f : Frame} {bs : Bytes} (h : f.encode = .ok bs) :
    bs.length = headerLength + bodyLength bs + trailerLength ∧
      Checksum.Ends (headerLength + bodyLength bs) bs := by
  obtain ⟨body, -, hlen, rfl⟩ := encode_eq_ok h
  rw [bodyLength_sealed f.type _ hlen, ← length_sealed f.type body]
  refine ⟨?_, Checksum.ends_append _⟩
  rw [List.length_append, length_littleEndian]
  rfl

/-- Bytes that differ from those of a frame, though only within four neighbouring ones, are not read as
a frame. -/
theorem burst_detected {f : Frame} {bs bs' : Bytes} (hwritten : f.encode = .ok bs) {start : Nat}
    (hburst : Checksum.SameOutside start 4 bs bs') (hchanged : bs' ≠ bs) :
    ∃ fault, decode bs' = .error fault := by
  cases hread : decode bs' with
  | error fault => exact ⟨fault, rfl⟩
  | ok f' =>
    obtain ⟨hlength, hends⟩ := ends_encode hwritten
    obtain ⟨hlength', hends', -⟩ := decode_eq_ok hread
    have hbody : bodyLength bs' = bodyLength bs := by
      have := hburst.length_eq
      omega
    rw [hbody] at hends'
    exact absurd (hburst.eq_of_ends (Nat.le_refl 4) hlength hends hends') hchanged

/-- The bytes of an acknowledgement of key 7, where the last of its body and the first three of its
checksum are these. -/
def acknowledgement (key₇ crc₀ crc₁ crc₂ : UInt8) : Bytes :=
  [1, 32, 8, 0, 0, 0, 7, 0, 0, 0, 0, 0, 0, key₇, crc₀, crc₁, crc₂, 243]

/-- A burst that runs from the body into the checksum. -/
theorem burst_detected_border :
    (Frame.ack 7).encode = .ok (acknowledgement 0 163 172 3) ∧
      Checksum.SameOutside 13 4 (acknowledgement 0 163 172 3) (acknowledgement 128 0 45 99) ∧
      ∃ fault, decode (acknowledgement 128 0 45 99) = .error fault := by
  have hwritten : (Frame.ack 7).encode = .ok (acknowledgement 0 163 172 3) :=
    Action.eq_ok_of_toOption (by decide +kernel)
  have hburst : Checksum.SameOutside 13 4 (acknowledgement 0 163 172 3)
      (acknowledgement 128 0 45 99) := by
    refine ⟨rfl, fun i hi => ?_⟩
    have hbytes : ∀ i < 18, (acknowledgement 128 0 45 99)[i]? ≠ (acknowledgement 0 163 172 3)[i]? →
        13 ≤ i ∧ i < 17 := by decide
    refine hbytes i (Nat.lt_of_not_le fun hbehind => hi ?_) hi
    rw [List.getElem?_eq_none hbehind, List.getElem?_eq_none hbehind]
  exact ⟨hwritten, hburst, burst_detected hwritten hburst (by decide)⟩

end GroupReplication.Frame
