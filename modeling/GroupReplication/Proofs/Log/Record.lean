/-
A data file that holds the records of some packets, one behind the other, is scanned and read
to just these packets.
-/
import GroupReplication.Log.File
import GroupReplication.Proofs.Frame.RoundTrip

namespace GroupReplication

namespace Record

/-! ## Packets and their records -/

theorem encoded_cons {p : Packet} {ps : List Packet} {records : List Bytes}
    (h : (p :: ps).mapM encode = .ok records) :
    ∃ record rest, encode p = .ok record ∧ ps.mapM encode = .ok rest ∧
      records = record :: rest := by
  rw [List.mapM_cons] at h
  obtain ⟨record, hrecord, h⟩ := bind_eq_ok h
  obtain ⟨rest, hrest, h⟩ := bind_eq_ok h
  cases h
  exact ⟨record, rest, hrecord, hrest, rfl⟩

theorem encoded_mem {ps : List Packet} {records : List Bytes} (h : ps.mapM encode = .ok records)
    {record : Bytes} (hmem : record ∈ records) : ∃ p ∈ ps, encode p = .ok record := by
  induction ps generalizing records with
  | nil =>
    cases h
    cases hmem
  | cons p ps ih =>
    obtain ⟨first, rest, hfirst, hrest, rfl⟩ := encoded_cons h
    rcases List.mem_cons.1 hmem with rfl | hmem
    · exact ⟨p, by simp, hfirst⟩
    · obtain ⟨q, hq, hrecord⟩ := ih hrest hmem
      exact ⟨q, by simp [hq], hrecord⟩

theorem encoded_take {ps : List Packet} {records : List Bytes} (h : ps.mapM encode = .ok records)
    (n : Nat) : (ps.take n).mapM encode = .ok (records.take n) := by
  induction ps generalizing records n with
  | nil =>
    rw [List.mapM_nil] at h
    cases h
    rw [List.take_nil, List.take_nil, List.mapM_nil]
    rfl
  | cons p ps ih =>
    obtain ⟨first, rest, hfirst, hrest, rfl⟩ := encoded_cons h
    cases n with
    | zero => rfl
    | succ n =>
      rw [List.take_succ_cons, List.take_succ_cons, List.mapM_cons, hfirst, ok_bind, ih hrest n]
      rfl

/-- Wherever the records are parted, the packets are parted as well. -/
theorem encoded_append {ps : List Packet} {front back : List Bytes}
    (h : ps.mapM encode = .ok (front ++ back)) :
    ∃ qs rs, ps = qs ++ rs ∧ qs.mapM encode = .ok front ∧ rs.mapM encode = .ok back := by
  induction front generalizing ps with
  | nil => exact ⟨[], ps, rfl, rfl, h⟩
  | cons record front ih =>
    cases ps with
    | nil => cases h
    | cons p ps =>
      obtain ⟨_, rest, hrecord, hrest, heq⟩ := encoded_cons h
      cases heq
      obtain ⟨qs, rs, rfl, hqs, hrs⟩ := ih hrest
      refine ⟨p :: qs, rs, rfl, ?_, hrs⟩
      rw [List.mapM_cons, hrecord, ok_bind, hqs]
      rfl

/-! ## Reading one record -/

theorem decode_encode {p : Packet} {bs : Bytes} (h : encode p = .ok bs) (hfits : p.Fits) :
    decode bs = .ok p := by
  rw [decode, Frame.decode_encode h hfits trivial]
  rfl

section Header

variable {bs : Bytes} (h : Frame.headerLength ≤ bs.length)

include h

theorem hasHeader_append (rest : Bytes) : hasHeader (bs ++ rest) = hasHeader bs := by
  match bs, h with
  | _ :: _ :: _, _ => rfl

theorem bodyLength_append (rest : Bytes) :
    Frame.bodyLength (bs ++ rest) = Frame.bodyLength bs := by
  have hlength : 4 ≤ (bs.drop 2).length := by
    rw [List.length_drop]
    exact Nat.le_sub_of_add_le h
  rw [Frame.bodyLength, Frame.bodyLength,
    List.drop_append_of_le_length (Nat.le_trans (by decide) h),
    List.take_append_of_le_length hlength]

theorem announcedLength_append (rest : Bytes) :
    announcedLength (bs ++ rest) = announcedLength bs := by
  rw [announcedLength, announcedLength, bodyLength_append h]

/-- A record with a header that fits is read as long as the header says. -/
theorem read_fitting (hheader : hasHeader bs = true) {available : Nat}
    (havailable : announcedLength bs ≤ available) (hfits : announcedLength bs ≤ bs.length) :
    read available bs = .record (bs.take (announcedLength bs)) := by
  cases bs with
  | nil => cases hheader
  | cons version tail =>
    simp only [read]
    rw [if_neg (Nat.not_lt.2 h), if_neg (by simp [hheader]), if_neg (Nat.not_lt.2 havailable),
      if_neg (Nat.not_lt.2 hfits)]

/-- Nothing is read behind a broken header. -/
theorem read_broken (hheader : hasHeader bs = false) (available : Nat) :
    ∃ cause, read available bs = .corrupt cause := by
  cases bs with
  | nil => exact absurd h (by decide)
  | cons version tail =>
    refine ⟨.header version (tail.headD 0), ?_⟩
    simp only [read]
    rw [if_neg (Nat.not_lt.2 h), hheader]
    rfl

/-- A length that runs past the end is taken for damaged if a whole record starts behind it, and
else for that of a torn write. -/
theorem read_over (hheader : hasHeader bs = true) {available : Nat}
    (hover : available < announcedLength bs) :
    read available bs = if occursIn (bs.drop Frame.headerLength)
      then .corrupt (.overrun (announcedLength bs) available) else .torn := by
  cases bs with
  | nil => cases hheader
  | cons version tail =>
    simp only [read]
    rw [if_neg (Nat.not_lt.2 h), if_neg (by simp [hheader]), if_pos hover]

end Header

/-- What a reader needs to know of the bytes of a record. -/
theorem encode_shape {p : Packet} {bs : Bytes} (h : encode p = .ok bs) :
    Frame.headerLength < bs.length ∧ hasHeader bs = true ∧ announcedLength bs = bs.length := by
  obtain ⟨body, -, hlen, rfl⟩ := Frame.encode_eq_ok h
  have hlength := Frame.length_sealed FrameType.packet body
  refine ⟨?_, ?_, ?_⟩
  · rw [List.length_append, length_littleEndian]
    show Frame.headerLength < (Frame.sealed FrameType.packet body).length + 4
    omega
  · simp [hasHeader, Frame.sealed, Frame.type, Frame.currentVersion]
  · rw [announcedLength]
    show Frame.headerLength + Frame.bodyLength (Frame.sealed FrameType.packet body ++ _) + _ = _
    rw [Frame.bodyLength_sealed _ _ hlen, List.length_append, length_littleEndian]
    show _ = (Frame.sealed FrameType.packet body).length + Frame.trailerLength
    omega

/-- A record is read whole, whatever stands behind it. -/
theorem read_encode {p : Packet} {bs : Bytes} (h : encode p = .ok bs) {available : Nat}
    (havailable : bs.length ≤ available) (rest : Bytes) :
    read available (bs ++ rest) = .record bs := by
  obtain ⟨hlong, hheader, hannounced⟩ := encode_shape h
  have hlength := announcedLength_append (Nat.le_of_lt hlong) rest
  rw [hannounced] at hlength
  have hfront : Frame.headerLength ≤ (bs ++ rest).length := by
    rw [List.length_append]
    omega
  rw [read_fitting hfront (by rw [hasHeader_append (Nat.le_of_lt hlong), hheader])
    (by rw [hlength]; exact havailable) (by rw [hlength, List.length_append]; omega), hlength,
    List.take_left]

/-- What a scan found, behind what was found before. -/
def Scan.behind (before : List Located) (s : Scan) : Scan :=
  { s with records := before ++ s.records }

/-- What a scan does with what stands at the front. -/
theorem scan_eq (offset : Nat) (bs : Bytes) :
    scan offset bs = match read bs.length bs with
      | .ended => .ok ⟨[], offset, false⟩
      | .torn => .ok ⟨[], offset, true⟩
      | .corrupt cause => .error (.corruptRecord offset cause)
      | .record r =>
        match decode r with
        | .error cause => .error (.undecodableRecord offset cause)
        | .ok p => (scan (offset + r.length) (bs.drop r.length)).map
            (·.behind [⟨offset, r.length, p⟩]) := by
  rw [scan]
  split
  · rename_i hread
    rw [hread]
  · rename_i hread
    rw [hread]
  · rename_i hread
    rw [hread]
  · rename_i r hread
    rw [hread]
    dsimp only
    cases decode r with
    | error cause => rfl
    | ok p => cases scan (offset + r.length) (bs.drop r.length) <;> rfl

/-- A scan finds a record, and goes on behind it. -/
theorem scan_encode {p : Packet} {record : Bytes} (h : encode p = .ok record) (hfits : p.Fits)
    (offset : Nat) (rest : Bytes) : scan offset (record ++ rest)
      = (scan (offset + record.length) rest).map (·.behind [⟨offset, record.length, p⟩]) := by
  rw [scan_eq, read_encode h (by simp) rest]
  simp only [decode_encode h hfits, List.drop_left]

theorem scan_nil (offset : Nat) : scan offset [] = .ok ⟨[], offset, false⟩ := by
  rw [scan_eq]
  rfl

end Record

namespace FileLog

/-- The records of `ps` stand behind one another from `offset` on: `bs` are their bytes and
`entries` tell where each of them is. -/
inductive LaidOut : (offset : Nat) → List Packet → List IndexEntry → Bytes → Prop where
  | nil {offset : Nat} : LaidOut offset [] [] []
  | cons {offset : Nat} {p : Packet} {ps : List Packet} {record bs : Bytes}
      {entries : List IndexEntry} (encoded : Record.encode p = .ok record) (fits : p.Fits)
      (rest : LaidOut (offset + record.length) ps entries bs) :
      LaidOut offset (p :: ps) (⟨p.key, offset, record.length, p.weight⟩ :: entries)
        (record ++ bs)

theorem laidOut_of_layOut {ps : List Packet} {offset : Nat} {entries : List IndexEntry}
    {bs : Bytes} (h : layOut offset ps = .ok (entries, bs)) (hfits : ∀ p ∈ ps, p.Fits) :
    LaidOut offset ps entries bs := by
  induction ps generalizing offset entries bs with
  | nil => cases h; exact .nil
  | cons p ps ih =>
    obtain ⟨record, hrecord, h⟩ := bind_eq_ok h
    obtain ⟨⟨tail, rest⟩, htail, h⟩ := bind_eq_ok h
    cases h
    exact .cons hrecord (hfits p (by simp)) (ih htail fun q hq => hfits q (by simp [hq]))

/-- The records of packets, put behind one another. -/
theorem laidOut_flatten {ps : List Packet} {records : List Bytes} (hfits : ∀ p ∈ ps, p.Fits)
    (h : ps.mapM Record.encode = .ok records) (offset : Nat) :
    ∃ entries, LaidOut offset ps entries records.flatten := by
  induction ps generalizing offset records with
  | nil =>
    cases h
    exact ⟨[], .nil⟩
  | cons p ps ih =>
    obtain ⟨record, rest, hrecord, hrest, rfl⟩ := Record.encoded_cons h
    obtain ⟨entries, hlaid⟩ :=
      ih (fun q hq => hfits q (by simp [hq])) hrest (offset + record.length)
    exact ⟨_, .cons hrecord (hfits p (by simp)) hlaid⟩

namespace LaidOut

variable {offset : Nat} {ps qs : List Packet} {entries : List IndexEntry} {bs : Bytes}

theorem fits (h : LaidOut offset ps entries bs) : ∀ p ∈ ps, p.Fits := by
  induction h with
  | nil => simp
  | cons _ hfits _ ih =>
    intro q hq
    rcases List.mem_cons.1 hq with rfl | hq
    · exact hfits
    · exact ih q hq

theorem encoded (h : LaidOut offset ps entries bs) :
    ∃ records, ps.mapM Record.encode = .ok records ∧ bs = records.flatten := by
  induction h with
  | nil => exact ⟨[], rfl, rfl⟩
  | @cons offset p ps record bs entries hrecord _ _ ih =>
    obtain ⟨rest, hrest, rfl⟩ := ih
    refine ⟨record :: rest, ?_, rfl⟩
    rw [List.mapM_cons, hrecord, ok_bind, hrest]
    rfl

theorem keys (h : LaidOut offset ps entries bs) : entries.map (·.key) = ps.map (·.key) := by
  induction h with
  | nil => rfl
  | cons _ _ _ ih => rw [List.map_cons, List.map_cons, ih]

theorem weights (h : LaidOut offset ps entries bs) :
    entries.map (·.weight) = ps.map (·.weight) := by
  induction h with
  | nil => rfl
  | cons _ _ _ ih => rw [List.map_cons, List.map_cons, ih]

theorem length (h : LaidOut offset ps entries bs) : entries.length = ps.length := by
  have := congrArg List.length h.keys
  simpa using this

theorem eq_nil (h : LaidOut offset [] entries bs) : entries = [] ∧ bs = [] := by
  cases h
  exact ⟨rfl, rfl⟩

theorem totalWeight_eq (h : LaidOut offset ps entries bs) :
    totalWeight entries = Packet.totalWeight ps := by
  rw [totalWeight, Packet.totalWeight, h.weights]

theorem firstOffset (h : LaidOut offset ps entries bs) (hne : ps ≠ []) :
    entries.head?.map (·.offset) = some offset := by
  cases h with
  | nil => exact absurd rfl hne
  | cons => rfl

/-- The last entry ends where the bytes do. -/
theorem lastEnd (h : LaidOut offset ps entries bs) {e : IndexEntry}
    (he : entries.getLast? = some e) : e.offset + e.length = offset + bs.length := by
  induction h with
  | nil => cases he
  | @cons offset p ps record bs entries _ _ hrest ih =>
    rw [List.length_append, ← Nat.add_assoc]
    cases hrest with
    | nil => cases he; simp
    | cons => exact ih (by simpa using he)

theorem append {more : List IndexEntry} {cs : Bytes} (h : LaidOut offset ps entries bs)
    (hmore : LaidOut (offset + bs.length) qs more cs) :
    LaidOut offset (ps ++ qs) (entries ++ more) (bs ++ cs) := by
  induction h with
  | nil => simpa using hmore
  | cons hrecord hfits _ ih =>
    rw [List.append_assoc]
    refine .cons hrecord hfits (ih ?_)
    rwa [List.length_append, ← Nat.add_assoc] at hmore

/-- What is laid out can be split anywhere. -/
theorem split (h : LaidOut offset ps entries bs) (n : Nat) :
    ∃ front back, bs = front ++ back ∧ LaidOut offset (ps.take n) (entries.take n) front ∧
      LaidOut (offset + front.length) (ps.drop n) (entries.drop n) back := by
  induction h generalizing n with
  | nil => exact ⟨[], [], rfl, by simpa using .nil, by simpa using .nil⟩
  | @cons offset p ps record bs entries hrecord hfits hrest ih =>
    cases n with
    | zero => exact ⟨[], record ++ bs, rfl, .nil, .cons hrecord hfits hrest⟩
    | succ n =>
      obtain ⟨front, back, rfl, hfront, hback⟩ := ih n
      refine ⟨record ++ front, back, by rw [List.append_assoc], .cons hrecord hfits hfront, ?_⟩
      rw [List.length_append, ← Nat.add_assoc]
      exact hback

/-- The same records `d` places further to the front. -/
theorem shift {d : Nat} (h : LaidOut (offset + d) ps entries bs) :
    LaidOut offset ps (entries.map fun e => { e with offset := e.offset - d }) bs := by
  generalize hstart : offset + d = start at h
  induction h generalizing offset with
  | nil => exact .nil
  | @cons start p ps record bs entries hrecord hfits hrest ih =>
    subst hstart
    have htail := @ih (offset + record.length) (by omega)
    simp only [List.map_cons, Nat.add_sub_cancel]
    exact .cons hrecord hfits htail

/-- Reading the records gives the packets back. -/
theorem readMany_eq (h : LaidOut offset ps entries bs) {endOffset : Nat}
    (hend : offset + bs.length ≤ endOffset) (rest : Bytes) :
    Record.readMany endOffset ps.length offset (bs ++ rest) = ⟨ps, none⟩ := by
  induction h generalizing endOffset with
  | nil => rfl
  | @cons offset p ps record bs entries hrecord hfits hrest ih =>
    rw [List.length_append] at hend
    have hroom : record.length ≤ endOffset - offset := by omega
    have hread := Record.read_encode hrecord hroom (bs ++ rest)
    simp only [List.length_cons, Record.readMany]
    rw [List.append_assoc, hread]
    simp only [Record.decode_encode hrecord hfits, List.drop_left]
    rw [ih (by omega)]

/-- A scan finds the records, and goes on with what stands behind them. -/
theorem scan_append (h : LaidOut offset ps entries bs) (rest : Bytes) :
    ∃ records, records.map IndexEntry.ofRecord = entries ∧
      records.map (·.packet.key) = ps.map (·.key) ∧
      Record.scan offset (bs ++ rest)
        = (Record.scan (offset + bs.length) rest).map (·.behind records) := by
  induction h with
  | @nil offset =>
    refine ⟨[], rfl, rfl, ?_⟩
    rw [List.nil_append, List.length_nil, Nat.add_zero]
    cases Record.scan offset rest <;> rfl
  | @cons offset p ps record bs entries hrecord hfits hrest ih =>
    obtain ⟨records, hentries, hkeys, hscan⟩ := ih
    refine ⟨⟨offset, record.length, p⟩ :: records, by rw [List.map_cons, hentries]; rfl,
      by rw [List.map_cons, List.map_cons, hkeys], ?_⟩
    rw [List.append_assoc, Record.scan_encode hrecord hfits, hscan, List.length_append,
      ← Nat.add_assoc]
    cases Record.scan (offset + record.length + bs.length) rest <;> rfl

end LaidOut

end FileLog

end GroupReplication
