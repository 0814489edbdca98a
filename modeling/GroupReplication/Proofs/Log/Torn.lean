/-
Opening a directory whose data file was cut off somewhere. The records that stand whole in front
of the cut are kept, and what is left of the next one is cut off as well: it is the trace of a
write that was cut short.

A damaged length looks the same at first, and the two are told apart by the bytes behind the
header: if a whole record starts anywhere in them, the length is taken for damaged. Those bytes are
a packet's own, and a packet may well hold a record; then a cut through it keeps the log from
opening (`cut_refused`).
-/
import GroupReplication.Proofs.Log.Reached

namespace GroupReplication

namespace Record

/-- How many of the records stand whole before `cut`. -/
def wholeBefore : (cut : Nat) → List Bytes → Nat
  | _, [] => 0
  | cut, r :: rs => if r.length ≤ cut then wholeBefore (cut - r.length) rs + 1 else 0

/-- A cut leaves whole records, and perhaps the first bytes of one more. -/
theorem take_flatten (cut : Nat) (records : List Bytes) :
    ∃ torn, records.flatten.take cut = (records.take (wholeBefore cut records)).flatten ++ torn ∧
      (torn = [] ∨ ∃ record ∈ records, torn <+: record ∧ torn.length < record.length) := by
  induction records generalizing cut with
  | nil => exact ⟨[], by simp, .inl rfl⟩
  | cons r rs ih =>
    rw [wholeBefore, List.flatten_cons]
    by_cases hcut : r.length ≤ cut
    · obtain ⟨torn, htake, htorn⟩ := ih (cut - r.length)
      refine ⟨torn, ?_, htorn.imp_right fun ⟨record, hmem, hpart⟩ =>
        ⟨record, by simp [hmem], hpart⟩⟩
      rw [if_pos hcut, List.take_append, List.take_of_length_le hcut, htake, List.take_succ_cons,
        List.flatten_cons, List.append_assoc]
    · refine ⟨r.take cut, ?_, .inr ⟨r, by simp, List.take_prefix _ _, ?_⟩⟩
      · rw [if_neg hcut, List.take_append_of_le_length (by omega)]
        rfl
      · rw [List.length_take]
        omega

/-- The first bytes of a record are taken for a torn write, unless a whole record starts behind
their header. -/
theorem read_torn {p : Packet} {record torn : Bytes} (h : encode p = .ok record)
    (hpart : torn <+: record) (hshort : torn.length < record.length) (hne : torn ≠ []) :
    read torn.length torn = if occursIn (torn.drop Frame.headerLength)
      then .corrupt (.overrun record.length torn.length) else .torn := by
  obtain ⟨more, rfl⟩ := hpart
  by_cases hheader : torn.length < Frame.headerLength
  · have hnone : torn.drop Frame.headerLength = [] := List.drop_eq_nil_of_le (Nat.le_of_lt hheader)
    rw [hnone, occursIn, if_neg Bool.false_ne_true]
    cases torn with
    | nil => exact absurd rfl hne
    | cons version tail =>
      simp only [read]
      rw [if_pos hheader]
  · have hlong := Nat.le_of_not_lt hheader
    obtain ⟨-, hhas, hannounced⟩ := encode_shape h
    rw [hasHeader_append hlong] at hhas
    rw [announcedLength_append hlong] at hannounced
    rw [read_over hlong hhas (by rw [hannounced]; exact hshort), hannounced]

theorem scan_torn {p : Packet} {record torn : Bytes} (h : encode p = .ok record)
    (hpart : torn <+: record) (hshort : torn.length < record.length) (hne : torn ≠ [])
    (offset : Nat) :
    scan offset torn = if occursIn (torn.drop Frame.headerLength)
      then .error (.corruptRecord offset (.overrun record.length torn.length))
      else .ok ⟨[], offset, true⟩ := by
  rw [scan_eq, read_torn h hpart hshort hne]
  by_cases hocc : occursIn (torn.drop Frame.headerLength) = true
  · rw [if_pos hocc, if_pos hocc]
  · rw [if_neg hocc, if_neg hocc]

end Record

namespace FileLog

variable {d : Directory} {stored : List Packet} {records : List Bytes}

/-- A log does not open if a scan of its data file fails, and opening it changes nothing. -/
theorem openIn_damaged {mark : Option Nat} {bs : Bytes} {damage : LogDamage}
    (hpresent : d.present = true) (hmark : d.readHead = .ok mark) (hdata : d.data = some bs)
    (hscan : Record.scan 0 bs = .error damage) (options : FileOptions) :
    FileLog.openIn d options = (.error (.logCompromised (.log d.name damage)), d) := by
  have hcreate : d.create = d := by
    rw [Directory.create, hdata]
    exact congrArg (fun data => { d with data }) hdata.symm
  rw [FileLog.openIn, Directory.make, if_pos hpresent]
  simp only [hmark, hcreate, hdata, Option.getD_some, hscan]

/-- The first bytes of a record that are left of a cut. -/
def Part (records : List Bytes) (torn : Bytes) : Prop :=
  torn = [] ∨ ∃ record ∈ records, torn <+: record ∧ torn.length < record.length

theorem Stores.scan_part (h : Stores d stored records) {torn : Bytes} (htorn : Part records torn)
    (offset : Nat) :
    if Record.occursIn (torn.drop Frame.headerLength)
      then ∃ damage, Record.scan offset torn = .error damage
      else ∃ isTorn, Record.scan offset torn = .ok ⟨[], offset, isTorn⟩ ∧
        (isTorn = false → torn = []) := by
  by_cases hne : torn = []
  · subst hne
    exact ⟨false, Record.scan_nil offset, fun _ => rfl⟩
  · obtain ⟨record, hmem, hpart, hshort⟩ := htorn.resolve_left hne
    obtain ⟨p, -, hrecord⟩ := Record.encoded_mem h.encoded hmem
    rw [Record.scan_torn hrecord hpart hshort hne]
    split
    · exact ⟨_, rfl⟩
    · exact ⟨true, rfl, fun hfalse => by cases hfalse⟩

/-- What is left of a record is cut off when the directory is opened, and keeps it from opening
if it holds a whole one. -/
theorem Stores.openIn_part (h : Stores d stored records) {mark : Option Nat}
    (hmark : d.readHead = .ok mark) {torn : Bytes} (htorn : Part records torn) (count : Nat)
    (options : FileOptions) :
    let whole := (records.take count).flatten
    let found := { d with data := some (whole ++ torn) }
    if Record.occursIn (torn.drop Frame.headerLength) then
      ∃ damage, FileLog.openIn found options
        = (.error (.logCompromised (.log found.name damage)), found)
    else
      ∃ l, FileLog.openIn found options = (.ok l, { d with data := some whole }) ∧
        l.readFrom none = .ok ⟨(stored.take count).filter (mark.getD 0 ≤ ·.key), none⟩ := by
  intro whole found
  obtain ⟨entries, hlaid⟩ := laidOut_flatten (fun p hp => h.fits p (List.mem_of_mem_take hp))
    (Record.encoded_take h.encoded count) 0
  have hscan := h.scan_part htorn whole.length
  split
  · rename_i hocc
    rw [if_pos hocc] at hscan
    obtain ⟨damage, hdamage⟩ := hscan
    obtain ⟨located, -, -, hall⟩ := hlaid.scan_append torn
    rw [Nat.zero_add, hdamage] at hall
    exact ⟨damage, openIn_damaged (d := found) h.present hmark rfl hall options⟩
  · rename_i hocc
    rw [if_neg hocc] at hscan
    obtain ⟨isTorn, hscan, hempty⟩ := hscan
    obtain ⟨key, hkeyed⟩ := h.keyed
    obtain ⟨l, front, back, hok, hdirectory, hopen, -, hbytes, -, hback, hpic⟩ :=
      openIn_scanned (d := found) h.present hmark rfl hlaid (hkeyed.take count) hscan hempty options
    refine ⟨l, hok, ?_⟩
    rw [hpic.readFrom hopen (by rw [hdirectory, ← hbytes]) hback, (hkeyed.take count).filter_le]
    rfl

/-- A directory whose data file was cut off somewhere. -/
def cutAt (d : Directory) (cut : Nat) : Directory := { d with data := d.data.map (·.take cut) }

theorem name_cutAt (d : Directory) (cut : Nat) : (cutAt d cut).name = d.name := rfl

/-- What opening makes of a directory whose data file, the records of `stored`, was cut off at
`cut`. It keeps the packets in front of the cut whose keys are not below the mark, and cuts the
file back to the last whole record; but it fails and changes nothing if the bytes that are left of
the next record hold a whole one behind their header. -/
def OpensCut (d : Directory) (stored : List Packet) (records : List Bytes) (cut : Nat)
    (options : FileOptions) : Prop :=
  let count := Record.wholeBefore cut records
  let whole := (records.take count).flatten
  let torn := (records.flatten.take cut).drop whole.length
  if Record.occursIn (torn.drop Frame.headerLength) then
    ∃ damage, FileLog.openIn (cutAt d cut) options
      = (.error (.logCompromised (.log d.name damage)), cutAt d cut)
  else
    ∃ l mark, FileLog.openIn (cutAt d cut) options = (.ok l, { d with data := some whole }) ∧
      d.readHead = .ok mark ∧
      PacketLog.readFrom none (.file l)
        = .ok ⟨(stored.take count).filter (mark.getD 0 ≤ ·.key), none⟩

/-- A log whose data file was cut off somewhere opens to the packets whose records stand whole in
front of the cut, unless what is left of the next record holds a whole one. -/
theorem opens_cut {l : FileLog} (h : l.Reached) :
    ∃ (stored : List Packet) (records : List Bytes), stored.mapM Record.encode = .ok records ∧
      l.directory.data = some records.flatten ∧
      ∀ (cut : Nat) (options : FileOptions), OpensCut l.directory stored records cut options := by
  obtain ⟨ps, hholds⟩ := h.holds
  obtain ⟨stored, records, hstores⟩ := hholds.stores
  obtain ⟨mark, hmark⟩ := hstores.readHead
  refine ⟨stored, records, hstores.encoded, hstores.data, fun cut options => ?_⟩
  obtain ⟨torn, htake, htorn⟩ := Record.take_flatten cut records
  have hcut : cutAt l.directory cut = { l.directory with
      data := some ((records.take (Record.wholeBefore cut records)).flatten ++ torn) } := by
    rw [cutAt, hstores.data, Option.map_some, htake]
  have hopen := hstores.openIn_part hmark htorn (Record.wholeBefore cut records) options
  unfold OpensCut
  intro count whole rest
  have hrest : rest = torn := by
    show (records.flatten.take cut).drop whole.length = torn
    rw [htake]
    exact List.drop_left
  rw [hcut, hrest]
  split
  · rename_i hocc
    rw [if_pos hocc] at hopen
    exact hopen
  · rename_i hocc
    rw [if_neg hocc] at hopen
    obtain ⟨l', hok, hread⟩ := hopen
    refine ⟨l', mark, hok, hmark, ?_⟩
    rw [PacketLog.readFrom, hread]
    rfl

end FileLog

/-- A packet that carries the record of another. -/
def Packet.nesting : Packet :=
  ⟨1, 1, false, false,
    .entry (.write ⟨"Order", "a", 1, (Record.encode (.ofOrder 1 "b")).toOption.getD [], none⟩)⟩

namespace FileLog

/-- The log of a new directory to which such a packet was added. -/
def nested : FileLog :=
  ((FileLog.append [.nesting]).perform (.new "orders" ⟨none, 1048576⟩)).2

theorem reached_nested : nested.Reached :=
  (reached_new "orders" ⟨none, 1048576⟩).append (by decide +kernel)

theorem opens_cut_nested :
    ∃ (stored : List Packet) (records : List Bytes), stored.mapM Record.encode = .ok records ∧
      nested.directory.data = some records.flatten ∧
      ∀ (cut : Nat) (options : FileOptions), OpensCut nested.directory stored records cut options :=
  opens_cut reached_nested

/-- A cut through the last byte of a record that holds another keeps the log from opening. -/
theorem cut_refused :
    nested.Reached ∧ nested.directory.data.map List.length = some 137 ∧
      FileLog.openIn (cutAt nested.directory 136) ⟨none, 1048576⟩
        = (.error (.logCompromised (.log nested.name (.corruptRecord 0 (.overrun 137 136)))),
          cutAt nested.directory 136) := by
  have hread : Record.read ((nested.directory.data.getD []).take 136).length
      ((nested.directory.data.getD []).take 136) = .corrupt (.overrun 137 136) := by
    decide +kernel
  have hhead : (cutAt nested.directory 136).head = none := by decide +kernel
  have hmark : (cutAt nested.directory 136).readHead = .ok none := by
    rw [Directory.readHead, hhead]
  have hscan : Record.scan 0 ((nested.directory.data.getD []).take 136)
      = .error (.corruptRecord 0 (.overrun 137 136)) := by
    rw [Record.scan_eq, hread]
  have hopen := openIn_damaged (by decide +kernel) hmark (by decide +kernel) hscan ⟨none, 1048576⟩
  rw [name_cutAt] at hopen
  exact ⟨reached_nested, by decide +kernel, hopen⟩

end FileLog

end GroupReplication
