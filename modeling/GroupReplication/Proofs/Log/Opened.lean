/-
What a log that was opened offers its readers, whatever stood in the data file. Opening passes over
the records below the mark and asks for consecutive keys of the others, wherever they stand; a
reader gets the records that stand behind one another from the first live one on. The two are the
same unless a dead record stands between live ones (`opened_sound_iff`), and such a file opens all
the same, to a log that its readers find out of order (`opened_out_of_order`).
-/
import GroupReplication.Proofs.Action
import GroupReplication.Proofs.Log.Damage

namespace GroupReplication

namespace Record

/-- Bytes that hold one record and no more, going by their header. -/
structure Whole (record : Bytes) : Prop where
  long : Frame.headerLength ≤ record.length
  header : hasHeader record = true
  announced : announcedLength record = record.length

/-- What is read as a record is whole. -/
theorem whole_of_read {available : Nat} {bs record : Bytes}
    (h : read available bs = .record record) : Whole record := by
  unfold read at h
  split at h
  · cases h
  rename_i version rest
  split at h
  · cases h
  rename_i hlong
  split at h
  · cases h
  rename_i hheader
  split at h
  · split at h <;> cases h
  split at h
  · cases h
  rename_i hfits
  cases h
  generalize version :: rest = bs at hlong hheader hfits ⊢
  have hlength : (bs.take (announcedLength bs)).length = announcedLength bs := by
    rw [List.length_take, Nat.min_eq_left (Nat.le_of_not_lt hfits)]
  have hfront : Frame.headerLength ≤ (bs.take (announcedLength bs)).length := by
    rw [hlength, announcedLength, Nat.add_assoc]
    exact Nat.le_add_right _ _
  have hheader' := hasHeader_append hfront (bs.drop (announcedLength bs))
  have hlength' := announcedLength_append hfront (bs.drop (announcedLength bs))
  rw [List.take_append_drop] at hheader' hlength'
  refine ⟨hfront, ?_, ?_⟩
  · rw [← hheader']
    simpa using hheader
  · rw [← hlength', hlength]

/-- A whole record is read, whatever stands behind it. -/
theorem Whole.read_append {record : Bytes} (h : Whole record) {available : Nat}
    (havailable : record.length ≤ available) (rest : Bytes) :
    read available (record ++ rest) = .record record := by
  have hlength := (announcedLength_append h.long rest).trans h.announced
  have hfits : announcedLength (record ++ rest) ≤ (record ++ rest).length := by
    rw [hlength, List.length_append]
    exact Nat.le_add_right _ _
  have hfront : Frame.headerLength ≤ (record ++ rest).length := by
    rw [List.length_append]
    exact Nat.le_add_right_of_le h.long
  rw [read_fitting hfront (by rw [hasHeader_append h.long, h.header])
    (by rw [hlength]; exact havailable) hfits, hlength, List.take_left]

/-- The records stand behind one another from `offset` on, and `bs` are their bytes. -/
inductive Strung : (offset : Nat) → List Located → Bytes → Prop where
  | nil {offset : Nat} : Strung offset [] []
  | cons {offset : Nat} {record bs : Bytes} {p : Packet} {records : List Located}
      (whole : Whole record) (decoded : decode record = .ok p)
      (rest : Strung (offset + record.length) records bs) :
      Strung offset (⟨offset, record.length, p⟩ :: records) (record ++ bs)

/-- A scan finds the records that stand behind one another at the front. -/
theorem strung_of_scan {offset : Nat} {bs : Bytes} {s : Scan} (h : scan offset bs = .ok s) :
    ∃ front back, bs = front ++ back ∧ Strung offset s.records front ∧
      s.endOffset = offset + front.length ∧ (s.torn = false → back = []) := by
  induction hlen : bs.length using Nat.strongRecOn generalizing offset bs s with
  | ind length ih =>
    rw [scan_eq] at h
    split at h
    · rename_i hread
      cases h
      refine ⟨[], bs, rfl, .nil, rfl, fun _ => ?_⟩
      cases bs with
      | nil => rfl
      | cons version rest =>
        simp only [read] at hread
        repeat' split at hread
        all_goals cases hread
    · cases h
      exact ⟨[], bs, rfl, .nil, rfl, fun hfalse => by cases hfalse⟩
    · cases h
    · rename_i record hread
      split at h
      · cases h
      rename_i p hdecode
      obtain ⟨hpos, hle, htake⟩ := read_eq_record hread
      cases hrest : scan (offset + record.length) (bs.drop record.length) with
      | error damage =>
        rw [hrest] at h
        cases h
      | ok rest =>
        rw [hrest] at h
        cases h
        obtain ⟨front, back, hbytes, hstrung, hend, htorn⟩ :=
          ih (bs.drop record.length).length (by rw [List.length_drop]; omega) hrest rfl
        refine ⟨record ++ front, back, ?_, .cons (whole_of_read hread) hdecode hstrung, ?_, htorn⟩
        · rw [List.append_assoc, ← hbytes]
          exact (List.take_append_drop record.length bs).symm.trans
            (congrArg (· ++ bs.drop record.length) htake.symm)
        · rw [List.length_append, ← Nat.add_assoc]
          exact hend

namespace Strung

variable {offset : Nat} {records behind : List Located} {bs : Bytes}

/-- The bytes part where the records do. -/
theorem split (h : Strung offset (records ++ behind) bs) :
    ∃ front back, bs = front ++ back ∧ Strung offset records front ∧
      Strung (offset + front.length) behind back := by
  induction records generalizing offset bs with
  | nil => exact ⟨[], bs, rfl, .nil, h⟩
  | cons r records ih =>
    cases h with
    | @cons _ record bs p _ whole decoded rest =>
      obtain ⟨front, back, rfl, hfront, hback⟩ := ih rest
      refine ⟨record ++ front, back, (List.append_assoc ..).symm, .cons whole decoded hfront, ?_⟩
      rw [List.length_append, ← Nat.add_assoc]
      exact hback

theorem firstOffset (h : Strung offset records bs) {r : Located} (hr : records.head? = some r) :
    r.offset = offset := by
  cases h with
  | nil => cases hr
  | cons =>
    cases hr
    rfl

theorem lastEnd (h : Strung offset records bs) {r : Located} (hr : records.getLast? = some r) :
    r.offset + r.length = offset + bs.length := by
  induction h with
  | nil => cases hr
  | @cons offset record bs p records _ _ rest ih =>
    rw [List.length_append, ← Nat.add_assoc]
    cases rest with
    | nil =>
      cases hr
      rfl
    | cons => exact ih (by simpa using hr)

/-- Reading as many records as there are gives their packets. -/
theorem readMany_eq (h : Strung offset records bs) {endOffset : Nat}
    (hend : offset + bs.length ≤ endOffset) (rest : Bytes) :
    readMany endOffset records.length offset (bs ++ rest)
      = ⟨records.map (·.packet), none⟩ := by
  induction h with
  | nil => rfl
  | @cons offset record bs p records whole decoded _ ih =>
    rw [List.length_append] at hend
    have hroom : record.length ≤ endOffset - offset := by omega
    have hread := whole.read_append hroom (bs ++ rest)
    simp only [List.length_cons, readMany]
    rw [List.append_assoc, hread]
    simp only [decoded, List.drop_left, List.map_cons]
    rw [ih (by omega)]

/-- Records in the middle are read from where the first of them stands. -/
theorem readMany_mid {front middle back : List Located}
    (h : Strung 0 (front ++ (middle ++ back)) bs) :
    ∃ start size, start + size ≤ bs.length ∧ (∀ r, middle.head? = some r → r.offset = start) ∧
      (∀ r, middle.getLast? = some r → r.offset + r.length = start + size) ∧
      ∀ endOffset, start + size ≤ endOffset →
        readMany endOffset middle.length start (bs.drop start)
          = ⟨middle.map (·.packet), none⟩ := by
  obtain ⟨before, rest, rfl, -, hrest⟩ := h.split
  obtain ⟨own, after, rfl, hown, -⟩ := hrest.split
  rw [Nat.zero_add] at hown
  refine ⟨before.length, own.length, ?_, fun r hr => hown.firstOffset hr,
    fun r hr => hown.lastEnd hr, fun endOffset hend => ?_⟩
  · rw [List.length_append, List.length_append]
    omega
  · rw [List.drop_left]
    exact hown.readMany_eq hend after

end Strung

end Record

namespace Log

open Packet

theorem keyedFrom_of_checkContiguous {ps : List Packet}
    (h : checkContiguous (ps.map (·.key)) = .ok ()) : ∃ key, KeyedFrom key ps := by
  induction ps with
  | nil => exact ⟨0, trivial⟩
  | cons p ps ih =>
    cases ps with
    | nil => exact ⟨p.key, rfl, trivial⟩
    | cons q ps =>
      simp only [List.map_cons] at h
      rw [checkContiguous] at h
      split at h
      · cases h
      split at h
      · cases h
      rename_i hnext
      obtain ⟨key, hq, hps⟩ := ih h
      refine ⟨p.key, rfl, ?_, ?_⟩
      · omega
      · rw [show p.key + 1 = key by omega]
        exact hps

theorem keyedFrom_of_checkSequence {ps : List Packet} {weights : List Nat} {tracked : LogSize}
    (h : checkSequence (ps.map (·.key)) weights tracked = .ok ()) : ∃ key, KeyedFrom key ps := by
  obtain ⟨_, hcontiguous, -⟩ := bind_eq_ok h
  exact keyedFrom_of_checkContiguous hcontiguous

end Log

namespace FileLog

open Log Packet Record

/-- The records that are not below the mark. -/
def live (mark : Option Nat) (records : List Located) : List Located :=
  records.filter fun r => mark.getD 0 ≤ r.packet.key

/-- As many records as are live, from the first live one on. -/
def standing (mark : Option Nat) (records : List Located) : List Located :=
  (records.dropWhile fun r => r.packet.key < mark.getD 0).take (live mark records).length

/-- A reader gets packets with consecutive keys, from the first to the last key of the log, that
are as many and weigh as much as the log says; and the log finds nothing wrong with itself. -/
structure Sound (l : FileLog) : Prop where
  reads : ∃ ps key, l.readFrom none = .ok ⟨ps, none⟩ ∧ KeyedFrom key ps ∧
    l.firstKey = ps.head?.map (·.key) ∧ l.lastKey = ps.getLast?.map (·.key) ∧
    l.announced = ⟨ps.length, Packet.totalWeight ps⟩ ∧ l.weight = Packet.totalWeight ps
  validates : Action.perform validate l = (.ok (), l)

section Live

variable (mark : Option Nat) (records : List Located)

theorem live_append (more : List Located) :
    live mark (records ++ more) = live mark records ++ live mark more := List.filter_append ..

theorem le_of_mem_live {r : Located} (h : r ∈ live mark records) : mark.getD 0 ≤ r.packet.key := by
  simpa using (List.mem_filter.1 h).2

/-- The first live record has only dead ones in front of it. -/
theorem live_eq_cons {first : Located} {others : List Located}
    (h : live mark records = first :: others) :
    ∃ front back, records = front ++ first :: back ∧
      (records.dropWhile fun r => r.packet.key < mark.getD 0) = first :: back ∧
      live mark records = live mark (first :: back) := by
  obtain ⟨front, back, rfl, hdead, hfirst, hothers⟩ := List.filter_eq_cons_iff.1 h
  refine ⟨front, back, rfl, ?_, ?_⟩
  · rw [List.dropWhile_append_of_pos fun r hr => ?_, List.dropWhile_cons_of_neg]
    · simpa using hfirst
    · simpa using hdead r hr
  · rw [h, live, List.filter_cons, if_pos hfirst, hothers]

theorem length_standing : (standing mark records).length = (live mark records).length := by
  cases hlive : live mark records with
  | nil => rw [standing, hlive, List.length_nil, List.take_zero, List.length_nil]
  | cons first others =>
    obtain ⟨front, back, -, hdrop, hsame⟩ := live_eq_cons mark records hlive
    rw [standing, hdrop, List.length_take, ← hlive, hsame]
    exact Nat.min_eq_left (List.length_filter_le _ _)

theorem standing_infix : standing mark records <:+: records :=
  (List.take_prefix _ _).isInfix.trans (List.dropWhile_suffix _).isInfix

/-- If none of them is dead, the records that a reader gets are the live ones. -/
theorem live_eq_standing (h : ∀ r ∈ standing mark records, mark.getD 0 ≤ r.packet.key) :
    live mark records = standing mark records := by
  cases hlive : live mark records with
  | nil => rw [standing, hlive, List.length_nil, List.take_zero]
  | cons first others =>
    obtain ⟨front, back, -, hdrop, hsame⟩ := live_eq_cons mark records hlive
    have hall : live mark (standing mark records) = standing mark records :=
      List.filter_eq_self.2 fun r hr => by simpa using h r hr
    have hparts : live mark (first :: back)
        = standing mark records ++ live mark ((first :: back).drop (live mark records).length) := by
      conv => rhs; lhs; rw [← hall, standing, hdrop]
      rw [← live_append, List.take_append_drop]
    rw [← hsame] at hparts
    have hfront : standing mark records <+: live mark records := ⟨_, hparts.symm⟩
    rw [← hlive]
    exact (hfront.eq_of_length (length_standing mark records)).symm

/-- The records that a reader gets are the live ones if these stand behind one another. -/
theorem standing_eq_live (h : live mark records <:+: records) :
    standing mark records = live mark records := by
  obtain ⟨front, back, hrecords⟩ := h
  have hall : live mark (live mark records) = live mark records :=
    List.filter_eq_self.2 fun r hr => by simpa using le_of_mem_live mark records hr
  have hparts := congrArg (live mark) hrecords
  rw [live_append, live_append, hall] at hparts
  have hlength := congrArg List.length hparts
  rw [List.length_append, List.length_append] at hlength
  have hfront : live mark front = [] := List.length_eq_zero_iff.1 (by omega)
  have hdead : ∀ r ∈ front, decide (r.packet.key < mark.getD 0) = true := fun r hr => by
    simpa using List.filter_eq_nil_iff.1 hfront r hr
  have hdrop : (records.dropWhile fun r => r.packet.key < mark.getD 0)
      = (live mark records ++ back).dropWhile fun r => r.packet.key < mark.getD 0 := by
    conv => lhs; rw [← hrecords, List.append_assoc]
    exact List.dropWhile_append_of_pos hdead
  rw [standing, hdrop]
  cases hlive : live mark records with
  | nil => rfl
  | cons first others =>
    have hfirst := le_of_mem_live mark records (by rw [hlive]; exact List.mem_cons_self)
    rw [List.cons_append, List.dropWhile_cons_of_neg (by simpa using hfirst), ← List.cons_append,
      List.take_left]

end Live

/-- What opening makes of the records of a data file and the mark. -/
structure Opened (l : FileLog) (mark : Option Nat) (records : List Located) : Prop where
  stored : ∃ bytes, l.directory.data = some bytes ∧ Strung 0 records bytes ∧
    l.endOffset = bytes.length
  index : l.index = (live mark records).map IndexEntry.ofRecord
  weight : l.weight = totalWeight l.index
  announced : l.announced = ⟨l.index.length, l.weight⟩
  guard : l.guard = .ok ()
  keyed : ∃ key, KeyedFrom key ((live mark records).map (·.packet))

theorem opened_of_openIn {d : Directory} {options : FileOptions} {l : FileLog}
    (h : (FileLog.openIn d options).1 = .ok l) :
    ∃ mark s, d.readHead = .ok mark ∧ Record.scan 0 (d.data.getD []) = .ok s ∧
      l.Opened mark s.records := by
  unfold FileLog.openIn at h
  split at h
  · cases h
  rename_i made hmake
  have hmade : made.data = d.data ∧ made.readHead = d.readHead := by
    unfold Directory.make at hmake
    split at hmake
    · cases hmake
      exact ⟨rfl, rfl⟩
    · split at hmake <;> cases hmake
      exact ⟨rfl, rfl⟩
  split at h
  · cases h
  rename_i mark hmark
  dsimp only [Directory.create, Option.getD_some] at h
  rw [hmade.1] at h
  split at h
  · cases h
  rename_i s hscan
  split at h
  · cases h
  rename_i hcheck
  cases h
  obtain ⟨front, back, hbytes, hstrung, hend, htorn⟩ := strung_of_scan hscan
  rw [Nat.zero_add] at hend
  have hindex : (s.records.map IndexEntry.ofRecord).filter (fun e => mark.getD 0 ≤ e.key)
      = (live mark s.records).map IndexEntry.ofRecord := List.filter_map
  refine ⟨mark, s, hmade.2 ▸ hmark, hscan, ⟨front, ?_, hstrung, hend⟩, hindex, rfl, rfl, rfl, ?_⟩
  · show (if s.torn = true then _ else _ : Directory).data = _
    split
    · show some ((d.data.getD []).take s.endOffset) = some front
      rw [hbytes, hend, List.take_left]
    · rename_i hwhole
      show some (d.data.getD []) = some front
      rw [hbytes, htorn (by simpa using hwhole), List.append_nil]
  · have hkeys : ((live mark s.records).map (·.packet)).map (·.key)
        = ((s.records.map IndexEntry.ofRecord).filter (fun e => mark.getD 0 ≤ e.key)).map (·.key) := by
      rw [hindex, List.map_map, List.map_map]
      rfl
    exact keyedFrom_of_checkSequence (by rw [hkeys]; exact hcheck)

theorem firstMismatch?_live (records : List Located) :
    firstMismatch? (records.map IndexEntry.ofRecord) (records.map (·.packet)) = none := by
  rw [firstMismatch?, List.zip_map', List.findSome?_map]
  refine List.findSome?_eq_none_iff.2 fun r _ => ?_
  simp [IndexEntry.ofRecord]

namespace Opened

variable {l : FileLog} {mark : Option Nat} {records : List Located}

/-- The index tells the keys and weights of the live packets. -/
theorem index_eq (h : l.Opened mark records) :
    l.index.map (·.key) = ((live mark records).map (·.packet)).map (·.key) ∧
      l.index.map (·.weight) = ((live mark records).map (·.packet)).map (·.weight) := by
  rw [h.index, List.map_map, List.map_map, List.map_map, List.map_map]
  exact ⟨rfl, rfl⟩

theorem readFrom (h : l.Opened mark records) :
    l.readFrom none = .ok ⟨(standing mark records).map (·.packet), none⟩ := by
  obtain ⟨bytes, hdata, hstrung, hend⟩ := h.stored
  rw [FileLog.readFrom, h.guard, ok_bind]
  cases hlive : live mark records with
  | nil =>
    rw [standing, hlive, h.index, hlive]
    rfl
  | cons first others =>
    obtain ⟨front, back, hrecords, hdrop, hsame⟩ := live_eq_cons mark records hlive
    have hparts : records = front ++ (standing mark records
        ++ (first :: back).drop (live mark records).length) := by
      rw [standing, hdrop, List.take_append_drop]
      exact hrecords
    rw [hparts] at hstrung
    obtain ⟨start, size, hfits, hfirst, -, hread⟩ := hstrung.readMany_mid
    have hstart : first.offset = start := hfirst first (by
      rw [standing, hdrop, hlive]
      rfl)
    have hhead : l.index.head? = some (IndexEntry.ofRecord first) := by
      rw [h.index, hlive]
      rfl
    have hlength : l.index.length = (standing mark records).length := by
      rw [length_standing, h.index, List.length_map]
    simp only [hhead, readRecords, hdata, hlength]
    show Except.ok (readMany _ _ first.offset (bytes.drop first.offset)) = _
    rw [hstart, hread _ (by rw [hend]; exact hfits)]

theorem firstKey_eq (h : l.Opened mark records) :
    l.firstKey = ((live mark records).map (·.packet)).head?.map (·.key) := by
  rw [firstKey, ← List.head?_map, h.index_eq.1, List.head?_map]

theorem lastKey_eq (h : l.Opened mark records) :
    l.lastKey = ((live mark records).map (·.packet)).getLast?.map (·.key) := by
  rw [lastKey, ← List.getLast?_map, h.index_eq.1, List.getLast?_map]

theorem weight_eq (h : l.Opened mark records) :
    l.weight = Packet.totalWeight ((live mark records).map (·.packet)) := by
  rw [h.weight, totalWeight, Packet.totalWeight, h.index_eq.2]

theorem announced_eq (h : l.Opened mark records) : l.announced
    = ⟨((live mark records).map (·.packet)).length,
      Packet.totalWeight ((live mark records).map (·.packet))⟩ := by
  rw [h.announced, h.weight_eq, h.index, List.length_map, List.length_map]

/-- The entries of the index are read to the live packets if these stand behind one another. -/
theorem readEntries_eq (h : l.Opened mark records) (hstand : live mark records <:+: records) :
    l.readEntries l.index = .ok ((live mark records).map (·.packet)) := by
  obtain ⟨bytes, hdata, hstrung, -⟩ := h.stored
  obtain ⟨front, back, hrecords⟩ := hstand
  have hparts : records = front ++ (live mark records ++ back) := by
    rw [← List.append_assoc, hrecords]
  rw [hparts] at hstrung
  obtain ⟨start, size, -, hfirst, hlast, hread⟩ := hstrung.readMany_mid
  rw [h.index, readEntries, List.head?_map, List.getLast?_map]
  cases hhead : (live mark records).head? with
  | none =>
    rw [List.head?_eq_none_iff.1 hhead]
    rfl
  | some first =>
    obtain ⟨last, hend⟩ := Option.ne_none_iff_exists'.1
      (mt List.getLast?_eq_none_iff.1 (List.ne_nil_of_mem (List.mem_of_head? hhead)))
    simp only [hend, Option.map_some, hdata, IndexEntry.ofRecord, List.length_map]
    rw [hlast last hend, hfirst first hhead, hread _ (Nat.le_refl _)]

/-- A dead record between live ones is all that comes between a log and its readers. -/
theorem sound_iff (h : l.Opened mark records) : l.Sound ↔ live mark records <:+: records := by
  constructor
  · rintro ⟨⟨ps, key, hread, hkeyed, hfirst, -⟩, -⟩
    rw [h.readFrom] at hread
    cases hread
    -- the keys that a reader gets start at the first live one, so none of them is below the mark
    have halive : ∀ r ∈ standing mark records, mark.getD 0 ≤ r.packet.key := fun r hr => by
      have hmem : r.packet ∈ (standing mark records).map (·.packet) := List.mem_map_of_mem hr
      have hle := (hkeyed.bounds hmem).1
      rw [hkeyed.head? (List.ne_nil_of_mem hmem), h.firstKey_eq] at hfirst
      obtain ⟨p, hp, rfl⟩ := Option.map_eq_some_iff.1 hfirst
      obtain ⟨q, hq, rfl⟩ := List.mem_map.1 (List.mem_of_head? hp)
      exact Nat.le_trans (le_of_mem_live mark records hq) hle
    rw [live_eq_standing mark records halive]
    exact standing_infix mark records
  · intro hstand
    obtain ⟨key, hkeyed⟩ := h.keyed
    have hread := h.readFrom
    rw [standing_eq_live mark records hstand] at hread
    refine ⟨⟨_, key, hread, hkeyed, h.firstKey_eq, h.lastKey_eq, h.announced_eq, h.weight_eq⟩, ?_⟩
    have hcheck : checkSequence (l.index.map (·.key)) (l.index.map (·.weight))
        ⟨l.announced.packets, l.weight⟩ = .ok () := by
      rw [h.index_eq.1, h.index_eq.2, h.announced_eq, h.weight_eq]
      exact checkSequence_of_keyedFrom hkeyed
    have hmatch : firstMismatch? l.index ((live mark records).map (·.packet)) = none := by
      rw [h.index]
      exact firstMismatch?_live _
    rw [validate, Action.perform_get_bind, h.guard, Action.perform_decided_ok_bind, hcheck]
    simp only [h.readEntries_eq hstand, hmatch]
    rfl

end Opened

/-- A log that opens has taken up the live records of its data file, whose keys are consecutive.
Its readers get as many records from the first live one on, and the log is sound just when the live
ones stand behind one another, with no dead one between them. -/
theorem opened_sound_iff {d : Directory} {options : FileOptions} {l : FileLog}
    (h : (FileLog.openIn d options).1 = .ok l) :
    ∃ mark s, d.readHead = .ok mark ∧ Record.scan 0 (d.data.getD []) = .ok s ∧
      l.index = (live mark s.records).map IndexEntry.ofRecord ∧
      (∃ key, KeyedFrom key ((live mark s.records).map (·.packet))) ∧
      l.readFrom none = .ok ⟨(standing mark s.records).map (·.packet), none⟩ ∧
      (l.Sound ↔ live mark s.records <:+: s.records) := by
  obtain ⟨mark, s, hmark, hscan, hopened⟩ := opened_of_openIn h
  exact ⟨mark, s, hmark, hscan, hopened.index, hopened.keyed, hopened.readFrom, hopened.sound_iff⟩

/-- A directory with the packets 2, 1 and 3, in which the mark is on 2. -/
def disordered : Directory where
  path := "orders"
  present := true
  data := ([Packet.ofOrder 2 "b", .ofOrder 1 "a", .ofOrder 3 "c"].mapM Record.encode).toOption.map
    List.flatten
  head := some (Directory.headMarker 2)

theorem opened_sound_iff_disordered :
    ∃ l, (FileLog.openIn disordered ⟨none, 1048576⟩).1 = .ok l ∧
      ∃ mark s, disordered.readHead = .ok mark ∧
        Record.scan 0 (disordered.data.getD []) = .ok s ∧
        l.index = (live mark s.records).map IndexEntry.ofRecord ∧
        (∃ key, KeyedFrom key ((live mark s.records).map (·.packet))) ∧
        l.readFrom none = .ok ⟨(standing mark s.records).map (·.packet), none⟩ ∧
        (l.Sound ↔ live mark s.records <:+: s.records) := by
  have hok : (FileLog.openIn disordered ⟨none, 1048576⟩).1.isOk = true := by decide +kernel
  obtain ⟨l, hl⟩ := eq_ok_of_isOk hok
  exact ⟨l, hl, opened_sound_iff hl⟩

/-- The mark is on packet 2, and the log that opens tells of the packets 2 and 3; but packet 1
stands between them, and a reader gets it in place of 3. -/
theorem opened_out_of_order :
    disordered.readHead = .ok (some 2) ∧
      ∃ l, (FileLog.openIn disordered ⟨none, 1048576⟩).1 = .ok l ∧
        l.firstKey = some 2 ∧ l.lastKey = some 3 ∧
        l.readFrom none = .ok ⟨[.ofOrder 2 "b", .ofOrder 1 "a"], none⟩ ∧ ¬ l.Sound := by
  have hopened : (FileLog.openIn disordered ⟨none, 1048576⟩).1.toOption.map (fun l =>
      (l.firstKey, l.lastKey, (l.readFrom none).toOption, (Action.perform validate l).1.isOk))
      = some (some 2, some 3, some ⟨[.ofOrder 2 "b", .ofOrder 1 "a"], none⟩, false) := by
    decide +kernel
  obtain ⟨l, hl, hanswers⟩ := Option.map_eq_some_iff.1 hopened
  obtain ⟨hfirst, hlast, hread, hvalidate⟩ : _ ∧ _ ∧ _ ∧ _ := by
    simpa only [Prod.mk.injEq] using hanswers
  refine ⟨Action.eq_ok_of_toOption (by decide +kernel), l, Action.eq_ok_of_toOption hl, hfirst, hlast,
    Action.eq_ok_of_toOption hread, fun hsound => ?_⟩
  rw [hsound.validates] at hvalidate
  cases hvalidate

end FileLog

end GroupReplication
