/-
A directory in which a single byte was damaged does not open, and opening it repairs nothing. The
mark ends with its checksum, and so does every record; only the length of a record stands outside
what its checksum can vouch for, because a wrong length moves the place where the checksum is
looked for. Two more things give a wrong length away: the length that a packet's own header holds,
and the next record, which is still whole. The last record has no next one: a damaged length there
looks like a write that was cut short.
-/
import GroupReplication.Proofs.Frame.Envelope
import GroupReplication.Proofs.Log.Torn

namespace GroupReplication

namespace Record

/-! ## Headers -/

/-- The length that a packet's own header gives its payload. -/
def payloadLength (bs : Bytes) : Nat := ofLittleEndian ((bs.drop 21).take 4)

theorem payloadLength_append {bs : Bytes} (h : 25 ≤ bs.length) (rest : Bytes) :
    payloadLength (bs ++ rest) = payloadLength bs := by
  have hlength : 4 ≤ (bs.drop 21).length := by
    rw [List.length_drop]
    omega
  rw [payloadLength, payloadLength, List.drop_append_of_le_length (by omega),
    List.take_append_of_le_length hlength]

theorem payloadLength_set {bs : Bytes} {i : Nat} (h : i < 21) (b : UInt8) :
    payloadLength (bs.set i b) = payloadLength bs := by
  rw [payloadLength, payloadLength, List.drop_set_of_lt h]

/-- What bytes with the header of a record look like that are read as one. -/
theorem decode_eq_ok {bs : Bytes} {p : Packet} (h : decode bs = .ok p)
    (hheader : hasHeader bs = true) :
    announcedLength bs = bs.length ∧
      Checksum.Ends (Frame.headerLength + Frame.bodyLength bs) bs ∧
      Frame.bodyLength bs = Frame.packetHeaderLength + payloadLength bs := by
  obtain ⟨f, hframe, -⟩ := bind_eq_ok h
  obtain ⟨hlength, hends, code, rest, type, hfront, htype, hbody⟩ := Frame.decode_eq_ok hframe
  refine ⟨hlength.symm, hends, ?_⟩
  match bs, hheader with
  | version :: sort :: more, hheader =>
    obtain ⟨-, hsort⟩ : version = Frame.currentVersion ∧ sort = FrameType.packet.code := by
      simpa [hasHeader] using hheader
    generalize Frame.bodyLength (version :: sort :: more) = length at hlength hfront ⊢
    have hmore : more.length = length + 8 := by
      simp only [List.length_cons, Frame.headerLength, Frame.trailerLength] at hlength
      omega
    rw [show Frame.headerLength + length = 4 + length + 1 + 1 by rw [Frame.headerLength]; omega,
      List.take_succ_cons, List.take_succ_cons] at hfront
    cases hfront
    rw [hsort, FrameType.ofCode?_code] at htype
    cases htype
    obtain ⟨q, -, hown⟩ := Frame.decodeBody_packet_eq_ok hbody
    have hwhole : ((more.take (4 + length)).drop 4).length = length := by
      rw [List.length_drop, List.length_take, hmore]
      omega
    rw [hwhole] at hown
    have hlong : 19 ≤ length := Nat.le_of_add_right_le (Nat.le_of_eq hown.symm)
    have hplace : (((more.take (4 + length)).drop 4).drop 15).take 4 = (more.drop 19).take 4 := by
      rw [List.drop_drop, List.drop_take, List.take_take, Nat.min_eq_left (by omega)]
    rw [hplace] at hown
    exact hown

/-- Bytes that start with a record that can be read say its length twice. -/
theorem bodyLength_decoded {bs : Bytes} {p : Packet}
    (h : decode (bs.take (announcedLength bs)) = .ok p) (hheader : hasHeader bs = true)
    (hfits : announcedLength bs ≤ bs.length) :
    Frame.bodyLength bs = Frame.packetHeaderLength + payloadLength bs := by
  have hlength : (bs.take (announcedLength bs)).length = announcedLength bs := by
    rw [List.length_take, Nat.min_eq_left hfits]
  have hfront : Frame.headerLength ≤ (bs.take (announcedLength bs)).length := by
    rw [hlength, announcedLength]
    omega
  have hsame := hasHeader_append hfront (bs.drop (announcedLength bs))
  have hbody := bodyLength_append hfront (bs.drop (announcedLength bs))
  rw [List.take_append_drop] at hsame hbody
  obtain ⟨-, -, hown⟩ := decode_eq_ok h (hsame.symm.trans hheader)
  have hlong : 25 ≤ (bs.take (announcedLength bs)).length := by
    rw [hlength, announcedLength, hbody, hown, Frame.headerLength, Frame.packetHeaderLength]
    omega
  have hpayload := payloadLength_append hlong (bs.drop (announcedLength bs))
  rw [List.take_append_drop] at hpayload
  rw [hbody, hpayload, hown]

section Changed

variable {record : Bytes} {i : Nat} {b : UInt8}

/-- A changed byte in front of the length breaks the header. -/
theorem hasHeader_set (hheader : hasHeader record = true) (hset : record.set i b ≠ record)
    (hi : i < 2) : hasHeader (record.set i b) = false := by
  match record, i, hheader, hi with
  | version :: sort :: more, 0, hheader, _ =>
    have hne : b ≠ version := fun heq => hset (by rw [heq]; rfl)
    simp only [hasHeader, Bool.and_eq_true, beq_iff_eq] at hheader
    simp [hasHeader, ← hheader.1, hne]
  | version :: sort :: more, 1, hheader, _ =>
    have hne : b ≠ sort := fun heq => hset (by rw [heq]; rfl)
    simp only [hasHeader, Bool.and_eq_true, beq_iff_eq] at hheader
    simp [hasHeader, ← hheader.2, hne]

/-- A changed byte in the length makes another length of it. -/
theorem bodyLength_set (hset : record.set i b ≠ record) (hi : 2 ≤ i) (hend : i < 6) :
    hasHeader (record.set i b) = hasHeader record ∧
      Frame.bodyLength (record.set i b) ≠ Frame.bodyLength record := by
  match record, i, hi with
  | [], _, _ => exact absurd rfl hset
  | [_], j + 2, _ => exact absurd rfl hset
  | version :: sort :: more, j + 2, _ =>
    refine ⟨rfl, fun hsame => hset ?_⟩
    have hbytes : (more.set j b).take 4 = more.take 4 :=
      ofLittleEndian_injective (by simp) hsame
    show version :: sort :: more.set j b = version :: sort :: more
    rw [← List.take_append_drop 4 (more.set j b), hbytes, List.drop_set_of_lt (by omega),
      List.take_append_drop]

/-- A changed byte behind the header leaves the header as it is. -/
theorem header_set (h : Frame.headerLength ≤ record.length) (hi : Frame.headerLength ≤ i) :
    hasHeader (record.set i b) = hasHeader record ∧
      Frame.bodyLength (record.set i b) = Frame.bodyLength record := by
  have hlength : (record.take Frame.headerLength).length = Frame.headerLength := by
    rw [List.length_take, Nat.min_eq_left h]
  have hset := List.set_append_right (s := record.take Frame.headerLength)
    (t := record.drop Frame.headerLength) i b (by rw [hlength]; exact hi)
  have hfront := Nat.le_of_eq hlength.symm
  have hheader := hasHeader_append hfront (record.drop Frame.headerLength)
  have hbody := bodyLength_append hfront (record.drop Frame.headerLength)
  rw [List.take_append_drop] at hset hheader hbody
  rw [hset, hasHeader_append hfront, bodyLength_append hfront, hheader, hbody]
  exact ⟨rfl, rfl⟩

end Changed

/-! ## Scans -/

theorem scan_corrupt {bs : Bytes} (h : ∃ cause, read bs.length bs = .corrupt cause) (offset : Nat) :
    ∃ damage, scan offset bs = .error damage := by
  obtain ⟨cause, hread⟩ := h
  exact ⟨.corruptRecord offset cause, by rw [scan_eq, hread]⟩

theorem scan_undecodable {bs r : Bytes} (hread : read bs.length bs = .record r)
    (hdecode : ∀ p, decode r ≠ .ok p) (offset : Nat) :
    ∃ damage, scan offset bs = .error damage := by
  cases hresult : decode r with
  | error cause =>
    refine ⟨.undecodableRecord offset cause, ?_⟩
    rw [scan_eq, hread]
    simp only [hresult]
  | ok p => exact absurd hresult (hdecode p)

/-- A whole record is found wherever it starts. -/
theorem occursIn_append {front bs : Bytes} (h : leads bs = true) :
    occursIn (front ++ bs) = true := by
  induction front with
  | nil =>
    cases bs with
    | nil => cases h
    | cons b bs =>
      rw [List.nil_append, occursIn, h]
      rfl
  | cons b front ih => rw [List.cons_append, occursIn, ih, Bool.or_true]

theorem leads_encode {p : Packet} {record : Bytes} (h : encode p = .ok record) (hfits : p.Fits)
    (rest : Bytes) : leads (record ++ rest) = true := by
  obtain ⟨hlong, hheader, hannounced⟩ := encode_shape h
  have hheader' := hasHeader_append (Nat.le_of_lt hlong) rest
  have hlength := announcedLength_append (Nat.le_of_lt hlong) rest
  rw [leads, hheader', hheader, hlength, hannounced, List.take_left, decode_encode h hfits]
  simp [Except.isOk, Except.toBool]

section Damaged

variable {p : Packet} {record back : Bytes} {i : Nat} {b : UInt8} (h : encode p = .ok record)
  (hset : record.set i b ≠ record)

include h hset

omit hset in
theorem headerLength_le_set : Frame.headerLength ≤ (record.set i b).length := by
  rw [List.length_set]
  exact Nat.le_of_lt (encode_shape h).1

theorem scan_damaged_header (hi : i < 2) (offset : Nat) :
    ∃ damage, scan offset (record.set i b ++ back) = .error damage := by
  obtain ⟨-, hheader, -⟩ := encode_shape h
  have hlength := headerLength_le_set (i := i) (b := b) h
  refine scan_corrupt (read_broken ?_ ?_ _) offset
  · rw [List.length_append]
    omega
  · rw [hasHeader_append hlength, hasHeader_set hheader hset hi]

/-- A wrong length is given away by the packet's own header if it stays within the file, and else
by the next record. -/
theorem scan_damaged_length (hfits : p.Fits) (hi : 2 ≤ i) (hend : i < 6)
    (hback : leads back = true) (offset : Nat) :
    ∃ damage, scan offset (record.set i b ++ back) = .error damage := by
  obtain ⟨-, hhas, hannounced⟩ := encode_shape h
  obtain ⟨-, -, hown⟩ := decode_eq_ok (decode_encode h hfits) hhas
  obtain ⟨hheader, hbody⟩ := bodyLength_set hset hi hend
  have hlength := headerLength_le_set (i := i) (b := b) h
  have hlonger : 25 ≤ (record.set i b).length := by
    rw [List.length_set, ← hannounced, announcedLength, hown, Frame.headerLength,
      Frame.packetHeaderLength]
    omega
  have hwhole : Frame.headerLength ≤ (record.set i b ++ back).length := by
    rw [List.length_append]
    exact Nat.le_add_right_of_le hlength
  have hheader' : hasHeader (record.set i b ++ back) = true := by
    rw [hasHeader_append hlength, hheader, hhas]
  rw [← bodyLength_append hlength back] at hbody
  by_cases hover : (record.set i b ++ back).length < announcedLength (record.set i b ++ back)
  · refine scan_corrupt ⟨_, (read_over hwhole hheader' hover).trans (if_pos ?_)⟩ offset
    rw [List.drop_append_of_le_length hlength]
    exact occursIn_append hback
  · have hfit := Nat.le_of_not_lt hover
    refine scan_undecodable (read_fitting hwhole hheader' hfit hfit) (fun q hq => hbody ?_) offset
    have hpayload : payloadLength (record.set i b ++ back) = payloadLength record := by
      rw [payloadLength_append hlonger, payloadLength_set (by omega)]
    rw [bodyLength_decoded hq hheader' hfit, hpayload, hown]

/-- Behind the header, the checksum gives the change away. -/
theorem scan_damaged_body (hfits : p.Fits) (hi : 6 ≤ i) (offset : Nat) :
    ∃ damage, scan offset (record.set i b ++ back) = .error damage := by
  obtain ⟨hlong, hhas, hannounced⟩ := encode_shape h
  obtain ⟨-, hends, -⟩ := decode_eq_ok (decode_encode h hfits) hhas
  obtain ⟨hheader, hbody⟩ := header_set (b := b) (Nat.le_of_lt hlong) hi
  have hlength := headerLength_le_set (i := i) (b := b) h
  have hannounced' : announcedLength (record.set i b ++ back) = (record.set i b).length := by
    rw [announcedLength_append hlength, List.length_set, ← hannounced, announcedLength, hbody]
    rfl
  have hwhole : (record.set i b).length ≤ (record.set i b ++ back).length := by
    rw [List.length_append]
    exact Nat.le_add_right _ _
  have hfit : announcedLength (record.set i b ++ back) ≤ (record.set i b ++ back).length := by
    rw [hannounced']
    exact hwhole
  have hread := read_fitting (Nat.le_trans hlength hwhole)
    (by rw [hasHeader_append hlength, hheader, hhas]) hfit hfit
  rw [hannounced', List.take_left] at hread
  refine scan_undecodable hread (fun q hq => ?_) offset
  obtain ⟨-, hagain, -⟩ := decode_eq_ok hq (hheader.trans hhas)
  rw [hbody] at hagain
  exact Checksum.not_ends_set hannounced.symm hends hset hagain

/-- A scan fails at a record with a changed byte; for a changed length this needs the record that
follows. -/
theorem scan_damaged (hfits : p.Fits) (hback : 2 ≤ i → i < 6 → leads back = true) (offset : Nat) :
    ∃ damage, scan offset (record.set i b ++ back) = .error damage := by
  by_cases hi : i < 2
  · exact scan_damaged_header h hset hi offset
  · by_cases hend : i < 6
    · exact scan_damaged_length h hset hfits (Nat.le_of_not_lt hi) hend
        (hback (Nat.le_of_not_lt hi) hend) offset
    · exact scan_damaged_body h hset hfits (Nat.le_of_not_lt hend) offset

end Damaged

/-- Every place of a data file is in one of the records. -/
theorem exists_at {records : List Bytes} {i : Nat} (hi : i < records.flatten.length) :
    ∃ front record back j, records = front ++ record :: back ∧ j < record.length ∧
      i = front.flatten.length + j := by
  induction records generalizing i with
  | nil => exact absurd hi (Nat.not_lt_zero i)
  | cons record records ih =>
    rw [List.flatten_cons, List.length_append] at hi
    by_cases hfirst : i < record.length
    · exact ⟨[], record, records, i, rfl, hfirst, (Nat.zero_add i).symm⟩
    · obtain ⟨front, found, back, j, rfl, hj, hplace⟩ := ih (i := i - record.length) (by omega)
      refine ⟨record :: front, found, back, j, rfl, hj, ?_⟩
      rw [List.flatten_cons, List.length_append]
      omega

theorem flatten_set {front back : List Bytes} {record : Bytes} {j : Nat} (hj : j < record.length)
    (b : UInt8) : (front ++ record :: back).flatten.set (front.flatten.length + j) b
      = front.flatten ++ (record.set j b ++ back.flatten) := by
  rw [List.flatten_append, List.flatten_cons, List.set_append_right _ _ (Nat.le_add_right _ _),
    Nat.add_sub_cancel_left, List.set_append_left _ _ hj]

end Record

namespace FileLog

variable {d : Directory} {stored : List Packet} {records : List Bytes}

/-- Where the last record starts. -/
def lastStart (records : List Bytes) : Nat := records.dropLast.flatten.length

/-- Opening fails with a compromised log, and leaves the directory as it is. -/
def Refuses (d : Directory) (options : FileOptions) : Prop :=
  ∃ cause, FileLog.openIn d options = (.error (.logCompromised cause), d)

theorem refuses_of_readHead {cause : CompromiseCause} (hpresent : d.present = true)
    (hhead : d.readHead = .error (.logCompromised cause)) (options : FileOptions) :
    Refuses d options := by
  refine ⟨cause, ?_⟩
  rw [FileLog.openIn, Directory.make, if_pos hpresent]
  simp only [hhead]

/-- A changed byte keeps the data file from being scanned, unless it is in the length of the last
record. -/
theorem Stores.scan_set (h : Stores d stored records) {i : Nat} {b : UInt8}
    (hplace : ¬ (lastStart records + 2 ≤ i ∧ i < lastStart records + 6))
    (hset : records.flatten.set i b ≠ records.flatten) :
    ∃ damage, Record.scan 0 (records.flatten.set i b) = .error damage := by
  have hi : i < records.flatten.length :=
    Nat.lt_of_not_le fun hle => hset (List.set_eq_of_length_le hle)
  obtain ⟨front, record, back, j, rfl, hj, rfl⟩ := Record.exists_at hi
  obtain ⟨before, others, rfl, hbefore, hothers⟩ := Record.encoded_append h.encoded
  cases others with
  | nil => cases hothers
  | cons p after =>
    obtain ⟨_, _, hrecord, hafter, heq⟩ := Record.encoded_cons hothers
    cases heq
    have hfits : ∀ q ∈ p :: after, q.Fits := fun q hq => h.fits q (List.mem_append_right _ hq)
    have hchanged : record.set j b ≠ record := fun hsame => hset <| by
      rw [Record.flatten_set hj, hsame, List.flatten_append, List.flatten_cons]
    have hback : 2 ≤ j → j < 6 → Record.leads back.flatten = true := by
      intro hfrom hto
      cases after with
      | nil =>
        cases hafter
        have hstart : lastStart (front ++ [record]) = front.flatten.length := by
          rw [lastStart, List.dropLast_concat]
        refine absurd ⟨?_, ?_⟩ hplace
        · exact Nat.le_trans (Nat.le_of_eq (congrArg (· + 2) hstart)) (Nat.add_le_add_left hfrom _)
        · exact Nat.lt_of_lt_of_eq (Nat.add_lt_add_left hto _) (congrArg (· + 6) hstart.symm)
      | cons q after =>
        obtain ⟨next, rest, hnext, -, rfl⟩ := Record.encoded_cons hafter
        exact Record.leads_encode hnext (hfits q (by simp)) rest.flatten
    obtain ⟨damage, hscan⟩ := Record.scan_damaged hrecord hchanged (hfits p (by simp)) hback
      front.flatten.length
    obtain ⟨entries, hlaid⟩ :=
      laidOut_flatten (fun q hq => h.fits q (List.mem_append_left _ hq)) hbefore 0
    obtain ⟨located, -, -, hall⟩ := hlaid.scan_append (record.set j b ++ back.flatten)
    rw [Nat.zero_add, hscan] at hall
    exact ⟨damage, by rw [Record.flatten_set hj, hall]; rfl⟩

/-- A mark in which a byte was changed is not read. -/
theorem readHead_set {key i : Nat} {b : UInt8}
    (hset : (Directory.headMarker key).set i b ≠ Directory.headMarker key)
    (hhead : d.head = some ((Directory.headMarker key).set i b)) :
    d.readHead = .error (.logCompromised (.headMarker d.headPath .checksum)) := by
  have hends : Checksum.Ends 8 (Directory.headMarker key) := by
    have hkey := Checksum.ends_append (littleEndian 8 key)
    rwa [length_littleEndian] at hkey
  have hlength : (Directory.headMarker key).length = 12 := by simp [Directory.headMarker]
  have hbroken := Checksum.not_ends_set hlength hends hset
  simp only [Directory.readHead, hhead]
  rw [if_neg (by rw [List.length_set, hlength]; decide), if_pos]
  exact fun heq => hbroken heq.symm

/-- A log in whose mark or data file a single byte was changed does not open, and keeps what is
left; only a changed length of the last record may look like a write that was cut short. -/
theorem damage_refused {l : FileLog} (h : l.Reached) :
    ∃ (stored : List Packet) (records : List Bytes), stored.mapM Record.encode = .ok records ∧
      l.directory.data = some records.flatten ∧
      ∀ (i : Nat) (b : UInt8) (options : FileOptions),
        (∀ mark, l.directory.head = some mark → mark.set i b ≠ mark →
          Refuses { l.directory with head := some (mark.set i b) } options) ∧
        (¬ (lastStart records + 2 ≤ i ∧ i < lastStart records + 6) →
          records.flatten.set i b ≠ records.flatten →
          Refuses { l.directory with data := some (records.flatten.set i b) } options) := by
  obtain ⟨ps, hholds⟩ := h.holds
  obtain ⟨stored, records, hstores⟩ := hholds.stores
  refine ⟨stored, records, hstores.encoded, hstores.data, fun i b options => ⟨?_, ?_⟩⟩
  · intro mark hmark hset
    obtain ⟨key, hkey⟩ := hstores.marked.resolve_left (by simp [hmark])
    cases hmark.symm.trans hkey
    exact refuses_of_readHead (d := { l.directory with head := some (List.set _ i b) })
      hstores.present (readHead_set hset rfl) options
  · intro hplace hset
    obtain ⟨damage, hscan⟩ := hstores.scan_set hplace hset
    obtain ⟨mark, hmark⟩ := hstores.readHead
    exact ⟨_, openIn_damaged
      (d := { l.directory with data := some (records.flatten.set i b) }) hstores.present hmark rfl
      hscan options⟩

/-- A log with one packet left of two. -/
def trimmed : FileLog :=
  ((FileLog.deleteOldest 1).perform ((FileLog.append [.ofOrder 1 "a", .ofOrder 2 "b"]).perform
    (.new "orders" ⟨none, 1048576⟩)).2).2

theorem reached_trimmed : trimmed.Reached := by
  have hfits : ∀ p ∈ [Packet.ofOrder 1 "a", .ofOrder 2 "b"], p.Fits := by decide +kernel
  have hadded := (reached_new "orders" ⟨none, 1048576⟩).append hfits
  refine hadded.called (.deleteOldest 1) (by decide) ?_
  rw [PacketLog.answer, Action.perform_map]
  rfl

/-- More of the last record stands behind its length. -/
theorem lastStart_lt (h : stored.mapM Record.encode = .ok records) (hne : records ≠ []) :
    lastStart records + 6 < records.flatten.length := by
  obtain ⟨p, -, hlast⟩ := Record.encoded_mem h (List.getLast_mem hne)
  obtain ⟨hlong, -⟩ := Record.encode_shape hlast
  have hsplit : records.flatten = records.dropLast.flatten ++ records.getLast hne := by
    rw [← List.flatten_concat, List.dropLast_concat_getLast hne]
  have hheader : Frame.headerLength = 6 := rfl
  rw [hsplit, List.length_append, lastStart]
  omega

/-- Its mark is on the second packet, and a changed byte in it is not passed over. Nor is one in the first
record, which is dead, or at the end of the second, which is live. -/
theorem damage_refused_trimmed :
    trimmed.directory.head = some (Directory.headMarker 2) ∧
      Refuses { trimmed.directory with head := some ((Directory.headMarker 2).set 0 0) }
        ⟨none, 1048576⟩ ∧
      ∃ bytes, trimmed.directory.data = some bytes ∧
        Refuses { trimmed.directory with data := some (bytes.set 0 0) } ⟨none, 1048576⟩ ∧
        Refuses { trimmed.directory with data := some (bytes.set (bytes.length - 1) 0) }
          ⟨none, 1048576⟩ := by
  obtain ⟨stored, records, hencoded, hdata, hrefused⟩ := damage_refused reached_trimmed
  obtain ⟨hmark, hfirst⟩ := hrefused 0 0 ⟨none, 1048576⟩
  obtain ⟨-, hlast⟩ := hrefused (records.flatten.length - 1) 0 ⟨none, 1048576⟩
  have hhead : trimmed.directory.head = some (Directory.headMarker 2) := by decide +kernel
  have hchanged : ∀ i ∈ [0, (trimmed.directory.data.getD []).length - 1],
      (trimmed.directory.data.getD []).set i 0 ≠ trimmed.directory.data.getD [] := by
    decide +kernel
  rw [hdata, Option.getD_some] at hchanged
  have hne : records ≠ [] := by
    rintro rfl
    exact hchanged 0 (List.mem_cons_self ..) rfl
  have hlong := lastStart_lt hencoded hne
  exact ⟨hhead, hmark _ hhead (by decide +kernel), _, hdata,
    hfirst (by omega) (hchanged _ (List.mem_cons_self ..)),
    hlast (by omega) (hchanged _ (by simp))⟩

end FileLog

end GroupReplication
