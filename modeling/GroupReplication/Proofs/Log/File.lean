/-
What the operations of a log in a directory do to the packets that it holds.

The data file is the records of dead packets followed by those of the live ones, and the mark in
the directory is the key of the first live packet, or there is no mark yet and nothing is dead. A
mark of 0 is no mark either: it is what is written for the key behind the last one that fits.
The index repeats where the live records are; a closed log forgets it, but what its directory
holds stays the same, so that opening the directory gives the same packets back.
-/
import GroupReplication.Proofs.Action
import GroupReplication.Proofs.Log.Keys
import GroupReplication.Proofs.Log.Record

namespace GroupReplication.FileLog

open GroupReplication.Action Log Packet

/-- The key of the first of `ps`, if everything up to `last` ends in them. -/
def firstOf (last : Option Nat) (ps : List Packet) : Nat := following last - ps.length

/-- Nothing in the directory is marked as dead. -/
def Unmarked (d : Directory) : Prop := d.head = none ∨ d.head = some (Directory.headMarker 0)

/-- A directory keeps `ps`, which have the index `entries` and the bytes `back`, behind the
bytes `front` of dead packets. -/
structure Kept (d : Directory) (last : Option Nat) (dead ps : List Packet)
    (entries : List IndexEntry) (front back : Bytes) : Prop where
  present : d.present = true
  data : d.data = some (front ++ back)
  gone : ∃ deadEntries, LaidOut 0 dead deadEntries front
  live : LaidOut front.length ps entries back
  endsIn : EndsIn last ps
  last_lt : ∀ k, last = some k → k < 2 ^ 64
  length_dead : dead.length ≤ firstOf last ps
  keyed_dead : KeyedFrom (firstOf last ps - dead.length) dead
  marked : Unmarked d ∧ dead = [] ∧ (ps = [] → last = none) ∨
    d.head = some (Directory.headMarker (firstOf last ps)) ∧ 0 < firstOf last ps ∧ last ≠ none

/-- The log's own picture of its directory. -/
structure Pictures (l : FileLog) (entries : List IndexEntry) (front back : Bytes) : Prop where
  index : l.index = if l.isClosed then [] else entries
  weight : l.weight = totalWeight l.index
  announced : l.announced = ⟨l.index.length, l.weight⟩
  headOffset : l.headOffset = front.length
  endOffset : l.endOffset = front.length + back.length
  attached : l.handle ≠ .orphaned
  undamaged : l.damage = none

/-- The log holds `ps`, and shows them until it is closed. -/
def Holds (l : FileLog) (ps : List Packet) : Prop :=
  ∃ dead entries front back, Kept l.directory l.lastAppended dead ps entries front back ∧
    Pictures l entries front back

section Kept

variable {d : Directory} {last : Option Nat} {dead ps : List Packet} {entries : List IndexEntry}
  {front back : Bytes}

theorem Kept.behind (h : Kept d last dead ps entries front back) :
    ∀ p ∈ dead, p.key < firstOf last ps := fun p hp => by
  have hbounds := h.keyed_dead.bounds hp
  have hlength := h.length_dead
  omega

theorem Kept.keyed_all (h : Kept d last dead ps entries front back) :
    KeyedFrom (firstOf last ps - dead.length) (dead ++ ps) := by
  rw [keyedFrom_append, Nat.sub_add_cancel h.length_dead]
  exact ⟨h.keyed_dead, h.endsIn.keyed⟩

theorem Kept.back_eq_nil (h : Kept d last dead [] entries front back) : back = [] :=
  h.live.eq_nil.2

/-- The first live packet stays the first when packets come in behind it. -/
theorem firstOf_append {k : Nat} {added : List Packet}
    (hadded : checkAppend (some k) (added.map (·.key)) = .ok ()) :
    firstOf ((added.getLast?.map (·.key)).or (some k)) (ps ++ added) = firstOf (some k) ps := by
  by_cases hne : added = []
  · subst hne
    simp
  · have hlen : 0 < added.length := List.length_pos_iff.2 hne
    rw [(checkAppend_some.1 hadded).getLast? hne]
    simp only [firstOf, Option.some_or, following_some, List.length_append]
    omega

theorem firstOf_drop {count : Nat} (h : EndsIn last ps) (hcount : count ≤ ps.length) :
    firstOf last (ps.drop count) = firstOf last ps + count := by
  have hle := h.length_le
  simp only [firstOf, List.length_drop]
  omega

/-- More records written at the end are kept as well. -/
theorem Kept.append {added : List Packet} {more : List IndexEntry} {bs : Bytes}
    (h : Kept d last dead ps entries front back)
    (hmore : LaidOut (front.length + back.length) added more bs)
    (hadded : checkAppend last (added.map (·.key)) = .ok ()) :
    Kept { d with data := some (front ++ back ++ bs) } ((added.getLast?.map (·.key)).or last) dead
      (ps ++ added) (entries ++ more) front (back ++ bs) where
  present := h.present
  data := by rw [← List.append_assoc]
  gone := h.gone
  live := h.live.append hmore
  endsIn := h.endsIn.append hadded
  last_lt k hk := by
    rcases Option.or_eq_some_iff.1 hk with hk | ⟨-, hk⟩
    · obtain ⟨p, hp, rfl⟩ := Option.map_eq_some_iff.1 hk
      exact (hmore.fits p (List.mem_of_getLast? hp)).1
    · exact h.last_lt k hk
  length_dead := by
    rcases h.marked with ⟨-, hdead, -⟩ | ⟨-, -, hlast⟩
    · rw [hdead]
      exact Nat.zero_le _
    · obtain ⟨k, rfl⟩ := Option.ne_none_iff_exists'.1 hlast
      rw [firstOf_append hadded]
      exact h.length_dead
  keyed_dead := by
    rcases h.marked with ⟨-, hdead, -⟩ | ⟨-, -, hlast⟩
    · rw [hdead]
      trivial
    · obtain ⟨k, rfl⟩ := Option.ne_none_iff_exists'.1 hlast
      rw [firstOf_append hadded]
      exact h.keyed_dead
  marked := by
    rcases h.marked with ⟨hhead, hdead, hlast⟩ | ⟨hhead, hpos, hlast⟩
    · refine .inl ⟨hhead, hdead, fun hnil => ?_⟩
      obtain ⟨hps, rfl⟩ := List.append_eq_nil_iff.1 hnil
      rw [hlast hps]
      rfl
    · obtain ⟨k, rfl⟩ := Option.ne_none_iff_exists'.1 hlast
      rw [firstOf_append hadded]
      refine .inr ⟨hhead, hpos, ?_⟩
      cases added.getLast? <;> simp

/-- Moving the mark makes the first packets dead. -/
theorem Kept.mark (h : Kept d last dead ps entries front back) {count : Nat} (hpos : 0 < count)
    (hcount : count ≤ ps.length) :
    ∃ front' back', front ++ back = front' ++ back' ∧
      Kept { d with head := some (Directory.headMarker (firstOf last (ps.drop count))) } last
        (dead ++ ps.take count) (ps.drop count) (entries.drop count) front' back' := by
  obtain ⟨deadEntries, hdead⟩ := h.gone
  obtain ⟨middle, back', rfl, hmiddle, hback⟩ := h.live.split count
  refine ⟨front ++ middle, back', by rw [List.append_assoc], ?_⟩
  have hfirst := firstOf_drop h.endsIn hcount
  have hlength := h.length_dead
  have htaken : (dead ++ ps.take count).length = dead.length + count := by
    rw [List.length_append, List.length_take, Nat.min_eq_left hcount]
  refine ⟨h.present, ?_, ⟨_, hdead.append (by rwa [Nat.zero_add])⟩, ?_, h.endsIn.drop count,
    h.last_lt, by omega, ?_, .inr ⟨rfl, by omega, ?_⟩⟩
  · rw [List.append_assoc]
    exact h.data
  · rwa [List.length_append]
  · rw [htaken, hfirst, Nat.add_sub_add_right, keyedFrom_append]
    refine ⟨h.keyed_dead, ?_⟩
    rw [Nat.sub_add_cancel hlength]
    exact h.endsIn.keyed.take count
  · intro hnone
    rw [h.endsIn.eq_nil hnone, List.length_nil] at hcount
    omega

/-- Copying the live records into a data file of their own leaves nothing dead. -/
theorem Kept.compacted (h : Kept d last dead ps entries front back) :
    Kept { d with data := some back } last [] ps
      (entries.map fun e => { e with offset := e.offset - front.length }) [] back where
  present := h.present
  data := rfl
  gone := ⟨[], .nil⟩
  live := LaidOut.shift (by rw [List.length_nil, Nat.zero_add]; exact h.live)
  endsIn := h.endsIn
  last_lt := h.last_lt
  length_dead := Nat.zero_le _
  keyed_dead := trivial
  marked := h.marked.imp (fun ⟨hhead, _, hlast⟩ => ⟨hhead, rfl, hlast⟩) id

end Kept

variable {l : FileLog} {ps : List Packet} {dead : List Packet} {entries : List IndexEntry}
  {front back : Bytes}

theorem guard_closed (hclosed : l.isClosed = true) :
    l.guard = .error (.storage (.closed l.name)) := by
  simp [guard, hclosed]

/-- A closed log refuses whatever it is asked. -/
theorem perform_guarded {α : Type} (hclosed : l.isClosed = true) (act : Action FileLog α) :
    (Action.decided l.guard >>= fun _ => act).perform l
      = (.error (.storage (.closed l.name)), l) := by
  rw [guard_closed hclosed, perform_decided_error_bind]

theorem Pictures.guard_open (h : Pictures l entries front back) (hopen : l.isClosed = false) :
    l.guard = .ok () := by
  simp [guard, hopen, h.undamaged]

theorem Pictures.index_open (h : Pictures l entries front back) (hopen : l.isClosed = false) :
    l.index = entries := by
  rw [h.index, hopen]
  rfl

theorem Pictures.handle_open (h : Pictures l entries front back) (hopen : l.isClosed = false) :
    l.handle = .attached := by
  cases hhandle : l.handle with
  | attached => rfl
  | orphaned => exact absurd hhandle h.attached
  | closed => simp [isClosed, hhandle] at hopen

theorem Pictures.liveBytes (h : Pictures l entries front back) : l.liveBytes = back.length := by
  rw [FileLog.liveBytes, h.headOffset, h.endOffset, Nat.add_sub_cancel_left]

theorem Holds.endsIn (h : l.Holds ps) : EndsIn l.lastAppended ps := by
  obtain ⟨_, _, _, _, hkept, -⟩ := h
  exact hkept.endsIn

theorem Holds.guard_open (h : l.Holds ps) (hopen : l.isClosed = false) : l.guard = .ok () := by
  obtain ⟨_, _, _, _, -, hpic⟩ := h
  exact hpic.guard_open hopen

theorem Holds.weight_eq (h : l.Holds ps) : l.weight = totalWeight l.index := by
  obtain ⟨_, _, _, _, -, hpic⟩ := h
  exact hpic.weight

/-- The index names the packets. -/
theorem Holds.index_open (h : l.Holds ps) (hopen : l.isClosed = false) :
    l.index.map (·.key) = ps.map (·.key) ∧ l.index.map (·.weight) = ps.map (·.weight) := by
  obtain ⟨_, _, _, _, hkept, hpic⟩ := h
  rw [hpic.index_open hopen]
  exact ⟨hkept.live.keys, hkept.live.weights⟩

/-! ## Adding packets -/

/-- The log after records were written at its end. -/
def extended (l : FileLog) (entries : List IndexEntry) (bs : Bytes) : FileLog :=
  let endOffset := l.endOffset + bs.length
  ({ l.write bs with
    index := l.index ++ entries
    headOffset :=
      if l.index.isEmpty then (entries.head?.map (·.offset)).getD endOffset else l.headOffset
    endOffset := endOffset
    weight := l.weight + totalWeight entries
    lastAppended := (entries.getLast?.map (·.key)).or l.lastAppended } : FileLog).announce

theorem Holds.extended (h : l.Holds ps) (hopen : l.isClosed = false) {added : List Packet}
    {more : List IndexEntry} {bs : Bytes} (hmore : LaidOut l.endOffset added more bs)
    (hadded : checkAppend l.lastAppended (added.map (·.key)) = .ok ()) :
    (l.extended more bs).Holds (ps ++ added) ∧
      (l.extended more bs).lastAppended = (added.getLast?.map (·.key)).or l.lastAppended ∧
      (l.extended more bs).isClosed = false := by
  obtain ⟨dead, entries, front, back, hkept, hpic⟩ := h
  have hwrite : l.write bs
      = { l with directory := { l.directory with data := some (front ++ back ++ bs) } } := by
    rw [write, hpic.handle_open hopen, hkept.data]
  have hindex := hpic.index_open hopen
  have hlast : more.getLast?.map (·.key) = added.getLast?.map (·.key) := by
    rw [← List.getLast?_map, hmore.keys, List.getLast?_map]
  have hclosed : (l.extended more bs).isClosed = false := by
    rw [FileLog.extended, hwrite]
    exact hopen
  have happended : (l.extended more bs).lastAppended
      = (added.getLast?.map (·.key)).or l.lastAppended := by
    rw [FileLog.extended, announce, hlast]
  refine ⟨⟨dead, entries ++ more, front, back ++ bs, ?_, ?_⟩, happended, hclosed⟩
  · rw [happended, FileLog.extended, hwrite]
    exact hkept.append (by rwa [← hpic.endOffset]) hadded
  · refine ⟨?_, ?_, rfl, ?_, ?_, ?_, ?_⟩
    · rw [hclosed, FileLog.extended, announce, hindex]
      rfl
    · show l.weight + totalWeight more = totalWeight (l.index ++ more)
      rw [hpic.weight, totalWeight_append]
    · show (if l.index.isEmpty then (more.head?.map (·.offset)).getD (l.endOffset + bs.length)
        else l.headOffset) = front.length
      split
      · rename_i hempty
        rw [hindex, List.isEmpty_iff] at hempty
        subst hempty
        have hnil := List.length_eq_zero_iff.1 hkept.live.length.symm
        subst hnil
        have hback := hkept.back_eq_nil
        have hend := hpic.endOffset
        rw [hback, List.length_nil, Nat.add_zero] at hend
        by_cases hne : added = []
        · subst hne
          cases hmore
          simpa using hend
        · rw [hmore.firstOffset hne, hend]
          rfl
      · exact hpic.headOffset
    · show l.endOffset + bs.length = front.length + (back ++ bs).length
      rw [hpic.endOffset, List.length_append, Nat.add_assoc]
    · rw [FileLog.extended, hwrite]
      exact hpic.attached
    · rw [FileLog.extended, hwrite]
      exact hpic.undamaged

theorem Holds.append (h : l.Holds ps) (hopen : l.isClosed = false) {added : List Packet}
    (hfits : ∀ p ∈ added, p.Fits) :
    (∃ e, (append added).perform l = (.error e, l)) ∨
      checkAppend l.lastAppended (added.map (·.key)) = .ok () ∧
        ∃ l', (append added).perform l = (.ok (), l') ∧ l'.Holds (ps ++ added) ∧
          l'.lastAppended = (added.getLast?.map (·.key)).or l.lastAppended ∧
          l'.isClosed = false := by
  rw [FileLog.append, perform_get_bind, h.guard_open hopen, perform_decided_ok_bind]
  cases hadded : checkAppend l.lastAppended (added.map (·.key)) with
  | error e => exact .inl ⟨e, by rw [perform_decided_error_bind]⟩
  | ok _ =>
    rw [perform_decided_ok_bind]
    cases hlay : layOut l.endOffset added with
    | error e => exact .inl ⟨.protocol e, perform_decided_error_bind ..⟩
    | ok laid =>
      obtain ⟨more, bs⟩ := laid
      rw [show (Except.ok (more, bs)).mapError Error.protocol = .ok (more, bs) from rfl,
        perform_decided_ok_bind]
      cases hroom : l.checkCapacity bs.length with
      | error e => exact .inl ⟨e, by simp only [perform_decided_error_bind, hroom]⟩
      | ok _ =>
        refine .inr ⟨rfl, l.extended more bs, ?_,
          h.extended hopen (laidOut_of_layOut hlay hfits) hadded⟩
        simp only [hroom, perform_decided_ok_bind]
        rfl

/-- Packets whose keys go on are refused only because they cannot be written, or take more bytes than
the log may have. -/
theorem Holds.append_error (h : l.Holds ps) (hopen : l.isClosed = false) {added : List Packet}
    (hadded : checkAppend l.lastAppended (added.map (·.key)) = .ok ()) {e : Error}
    (he : ((FileLog.append added).perform l).1 = .error e) :
    (∃ fault, layOut l.endOffset added = .error fault ∧ e = .protocol fault) ∨
      ∃ wanted most, l.options.maxBytes = some most ∧ most < wanted ∧
        e = .storageFull l.name wanted most := by
  rw [FileLog.append, perform_get_bind, h.guard_open hopen, perform_decided_ok_bind, hadded,
    perform_decided_ok_bind] at he
  cases hlay : layOut l.endOffset added with
  | error fault =>
    rw [hlay, show (Except.error fault).mapError Error.protocol = .error (.protocol fault) from rfl,
      perform_decided_error_bind] at he
    cases he
    exact .inl ⟨fault, rfl, rfl⟩
  | ok laid =>
    obtain ⟨entries, bs⟩ := laid
    rw [hlay, show (Except.ok (entries, bs)).mapError Error.protocol = .ok (entries, bs) from rfl,
      perform_decided_ok_bind] at he
    cases hmost : l.options.maxBytes with
    | none =>
      simp only [checkCapacity, hmost, perform_decided_ok_bind] at he
      cases he
    | some most =>
      by_cases hfull : most < l.liveBytes + bs.length
      · simp only [checkCapacity, hmost, if_pos hfull, perform_decided_error_bind] at he
        cases he
        exact .inr ⟨_, most, rfl, hfull, rfl⟩
      · simp only [checkCapacity, hmost, if_neg hfull, perform_decided_ok_bind] at he
        cases he

/-! ## Removing packets -/

/-- The log after the mark moved past `count` packets. -/
def remarked (l : FileLog) (count : Nat) (ps : List Packet) : FileLog :=
  { l.dropHead count with directory := { l.directory with
      head := some (Directory.headMarker (firstOf l.lastAppended (ps.drop count))) } }

theorem Holds.remarked (h : l.Holds ps) (hopen : l.isClosed = false) {count : Nat}
    (hpos : 0 < count) (hcount : count ≤ ps.length) :
    (l.remarked count ps).Holds (ps.drop count) ∧
      writeHead.perform (l.dropHead count) = (.ok (), l.remarked count ps) := by
  obtain ⟨dead, entries, front, back, hkept, hpic⟩ := h
  obtain ⟨front', back', hbytes, hmarked⟩ := hkept.mark hpos hcount
  have hindex := hpic.index_open hopen
  have hdata := hkept.data
  have hend : l.endOffset = front'.length + back'.length := by
    rw [hpic.endOffset, ← List.length_append, hbytes, List.length_append]
  have hsum : totalWeight entries
      = totalWeight (entries.take count) + totalWeight (entries.drop count) := by
    rw [← totalWeight_append, List.take_append_drop]
  refine ⟨⟨_, _, front', back', hmarked, ?_, ?_, rfl, ?_, hend, hpic.attached, hpic.undamaged⟩, ?_⟩
  · show l.index.drop count = if l.isClosed then [] else entries.drop count
    rw [hopen, hindex]
    rfl
  · show l.weight - totalWeight (l.index.take count) = totalWeight (l.index.drop count)
    rw [hpic.weight, hindex]
    omega
  · show ((l.index.drop count).head?.map (·.offset)).getD l.endOffset = front'.length
    rw [hindex]
    by_cases hne : ps.drop count = []
    · rw [hne] at hmarked
      have hnil : entries.drop count = [] := List.length_eq_zero_iff.1 hmarked.live.length
      rw [hnil, hend, hmarked.back_eq_nil]
      rfl
    · rw [hmarked.live.firstOffset hne]
      rfl
  · have hkey : (l.dropHead count).firstKey.getD ((l.dropHead count).lastAppended.elim 0 (· + 1))
        = firstOf l.lastAppended (ps.drop count) := by
      show ((l.index.drop count).head?.map (·.key)).getD (l.lastAppended.elim 0 (· + 1)) = _
      rw [hindex, ← List.head?_map, hmarked.live.keys, List.head?_map]
      by_cases hne : ps.drop count = []
      · have hlast : l.lastAppended ≠ none := fun hnone => by
          rw [hkept.endsIn.eq_nil hnone, List.length_nil] at hcount
          omega
        obtain ⟨k, hk⟩ := Option.ne_none_iff_exists'.1 hlast
        rw [hne, hk]
        rfl
      · rw [hmarked.endsIn.keyed.head? hne]
        rfl
    have hwritten : (l.dropHead count).directory.writeHead
        (firstOf l.lastAppended (ps.drop count)) = .ok (l.remarked count ps).directory :=
      if_pos hkept.present
    rw [writeHead, perform_get_bind]
    simp only [hkey, hwritten]
    rfl

/-- The log with its live records in a data file of their own. -/
def reclaimed (l : FileLog) : FileLog :=
  { l with
    directory.data := l.directory.data.map fun bytes => (bytes.drop l.headOffset).take l.liveBytes
    index := l.index.map fun e => { e with offset := e.offset - l.headOffset }
    headOffset := 0
    endOffset := l.liveBytes }

theorem Pictures.liveData (h : Pictures l entries front back) :
    ((front ++ back).drop l.headOffset).take l.liveBytes = back := by
  rw [h.headOffset, h.liveBytes, List.drop_left, List.take_length]

theorem Holds.reclaimed (h : l.Holds ps) (hopen : l.isClosed = false) : l.reclaimed.Holds ps := by
  obtain ⟨dead, entries, front, back, hkept, hpic⟩ := h
  have hdirectory : l.reclaimed.directory = { l.directory with data := some back } := by
    rw [FileLog.reclaimed, hkept.data, Option.map_some, hpic.liveData]
  have hleft := hkept.compacted
  rw [← hdirectory] at hleft
  refine ⟨[], _, [], back, hleft, ?_, ?_, ?_, rfl, ?_, hpic.attached, hpic.undamaged⟩
  · show l.index.map _ = if l.isClosed then [] else entries.map _
    rw [hopen, hpic.index_open hopen, hpic.headOffset]
    rfl
  · show l.weight = totalWeight (l.index.map _)
    rw [hpic.weight]
    simp [totalWeight, Function.comp_def]
  · show l.announced = ⟨(l.index.map _).length, l.weight⟩
    rw [hpic.announced, List.length_map]
  · show l.liveBytes = ([] : Bytes).length + back.length
    rw [hpic.liveBytes, List.length_nil, Nat.zero_add]

/-- Of a log that holds packets there are live records to copy, whenever that is due. -/
theorem Holds.perform_reclaim (h : l.Holds ps) (hopen : l.isClosed = false) :
    FileLog.reclaim.perform l = (.ok (), if l.reclaimDue then l.reclaimed else l) := by
  rw [FileLog.reclaim, perform_get_bind]
  by_cases hdue : l.reclaimDue = true
  · obtain ⟨dead, entries, front, back, hkept, hpic⟩ := h
    rw [if_pos hdue, if_pos hdue]
    simp only [hkept.data, hpic.liveData]
    rw [if_neg (by simp [hpic.liveBytes]), FileLog.reclaimed, hkept.data, Option.map_some,
      hpic.liveData, hpic.handle_open hopen]
    rfl
  · rw [if_neg hdue, if_neg hdue]
    rfl

/-- Copying the live records, if that is due, changes nothing that can be seen. -/
theorem Holds.reclaim (h : l.Holds ps) (hopen : l.isClosed = false) :
    ∃ l', FileLog.reclaim.perform l = (.ok (), l') ∧ l'.Holds ps ∧
      l'.lastAppended = l.lastAppended ∧ l'.isClosed = false := by
  refine ⟨_, h.perform_reclaim hopen, ?_⟩
  split
  · exact ⟨h.reclaimed hopen, rfl, hopen⟩
  · exact ⟨h, rfl, hopen⟩

/-- What a trimmed log looks like: only its first packets are gone. -/
def TrimsTo (l : FileLog) (ps : List Packet) (l' : FileLog) : Prop :=
  l'.Holds ps ∧ l'.lastAppended = l.lastAppended ∧ l'.isClosed = false

theorem Holds.trimHead (h : l.Holds ps) (hopen : l.isClosed = false) {count : Nat}
    (hcount : count ≤ ps.length) :
    ∃ l', (trimHead count).perform l = (.ok (l.index.take count), l') ∧
      l.TrimsTo (ps.drop count) l' := by
  rw [FileLog.trimHead, perform_get_bind]
  by_cases hzero : count = 0
  · subst hzero
    exact ⟨l, by simp, h, rfl, hopen⟩
  · obtain ⟨hholds, hwrite⟩ := h.remarked hopen (by omega) hcount
    obtain ⟨l', hreclaim, hheld, hlast, hstill⟩ := hholds.reclaim hopen
    refine ⟨l', ?_, hheld, hlast, hstill⟩
    rw [if_neg hzero, perform_set_bind, perform_bind_ok hwrite, perform_bind_ok hreclaim]
    rfl

/-- Entries and packets with the same keys begin with equally many up to a key. -/
theorem length_takeWhile_keys {entries : List IndexEntry} {ps : List Packet} (f : Nat → Bool)
    (h : entries.map (·.key) = ps.map (·.key)) :
    (entries.takeWhile fun e => f e.key).length = (ps.takeWhile fun p => f p.key).length := by
  have hentries := List.takeWhile_map (f := IndexEntry.key) (p := f) (l := entries)
  have hps := List.takeWhile_map (f := Packet.key) (p := f) (l := ps)
  rw [h, hps] at hentries
  have := congrArg List.length hentries
  simpa [Function.comp_def] using this.symm

theorem Holds.length_index (h : l.Holds ps) (hopen : l.isClosed = false) :
    l.index.length = ps.length := by
  simpa using congrArg List.length (h.index_open hopen).1

theorem Holds.trimThrough (h : l.Holds ps) (hopen : l.isClosed = false) (last : Nat) :
    ∃ l', (trimThrough last).perform l
        = (.ok (l.index.take (ps.takeWhile (·.key ≤ last)).length), l') ∧
      l.TrimsTo (ps.drop (ps.takeWhile (·.key ≤ last)).length) l' := by
  have hcount := length_takeWhile_keys (decide <| · ≤ last) (h.index_open hopen).1
  rw [FileLog.trimThrough, perform_get_bind, hcount]
  exact h.trimHead hopen (List.takeWhile_prefix _).length_le

/-- The packets of the first entries of the index. -/
theorem Holds.readEntries_take (h : l.Holds ps) (hopen : l.isClosed = false) (count : Nat) :
    l.readEntries (l.index.take count) = .ok (ps.take count) := by
  obtain ⟨dead, entries, front, back, hkept, hpic⟩ := h
  obtain ⟨middle, rest, rfl, hmiddle, -⟩ := hkept.live.split count
  rw [hpic.index_open hopen, readEntries]
  by_cases hne : ps.take count = []
  · rw [hne] at hmiddle
    rw [List.length_eq_zero_iff.1 hmiddle.length, hne]
    rfl
  · have hentries : entries.take count ≠ [] := fun hnil => hne (List.length_eq_zero_iff.1 (by
      rw [← hmiddle.length, hnil]
      rfl))
    obtain ⟨first, hfirst⟩ := Option.ne_none_iff_exists'.1
      (mt List.head?_eq_none_iff.1 hentries)
    obtain ⟨last, hlast⟩ := Option.ne_none_iff_exists'.1
      (mt List.getLast?_eq_none_iff.1 hentries)
    have hoffset : first.offset = front.length := by
      have := hmiddle.firstOffset hne
      rw [hfirst] at this
      simpa using this
    have hread := hmiddle.readMany_eq (Nat.le_of_eq (hmiddle.lastEnd hlast).symm) rest
    simp only [hfirst, hlast, hkept.data, hoffset, List.drop_left, hmiddle.length, hread]

theorem Holds.removeFirst (h : l.Holds ps) (hopen : l.isClosed = false) (count : Nat)
    (frontier : Option Nat) :
    ∃ l', (removeFirst count frontier).perform l = (.ok (removable ps count frontier), l') ∧
      l.TrimsTo (ps.drop (removable ps count frontier).length) l' := by
  have hkeys : (l.index.take count).map (·.key) = (ps.take count).map (·.key) := by
    rw [List.map_take, List.map_take, (h.index_open hopen).1]
  have hlen : ((l.index.take count).takeWhile fun e => frontier.all (e.key ≤ ·)).length
      = (removable ps count frontier).length :=
    length_takeWhile_keys (fun key => frontier.all (key ≤ ·)) hkeys
  have hentries : ((l.index.take count).takeWhile fun e => frontier.all (e.key ≤ ·))
      = l.index.take (removable ps count frontier).length := by
    rw [← hlen]
    exact List.prefix_iff_eq_take.1 ((List.takeWhile_prefix _).trans (List.take_prefix _ _))
  have hprefix := removable_prefix ps count frontier
  obtain ⟨l', htrim, hto⟩ := h.trimHead hopen hprefix.length_le
  refine ⟨l', ?_, hto⟩
  rw [FileLog.removeFirst, perform_get_bind, h.guard_open hopen, perform_decided_ok_bind]
  simp only [hlen]
  rw [hentries, h.readEntries_take hopen, ← List.prefix_iff_eq_take.1 hprefix]
  rw [show (Except.ok (removable ps count frontier)).mapError RecordFault.toError
    = .ok (removable ps count frontier) from rfl,
    perform_decided_ok_bind, perform_bind, perform_discard, htrim]
  rfl

theorem Holds.deleteOldest (h : l.Holds ps) (hopen : l.isClosed = false) (last : Nat) :
    ∃ l', (deleteOldest last).perform l = (.ok (ps.takeWhile (·.key ≤ last)).length, l') ∧
      l.TrimsTo (ps.drop (ps.takeWhile (·.key ≤ last)).length) l' := by
  obtain ⟨l', htrim, hto⟩ := h.trimThrough hopen last
  refine ⟨l', ?_, hto⟩
  rw [FileLog.deleteOldest, perform_get_bind, h.guard_open hopen, perform_decided_ok_bind,
    perform_bind_ok htrim, perform_pure, List.length_take, h.length_index hopen,
    Nat.min_eq_left (List.takeWhile_prefix _).length_le]

theorem Holds.compact (h : l.Holds ps) (hopen : l.isClosed = false) (first last : Nat) :
    (∃ e, checkRange first last l.firstKey = .error e ∧
        (compact first last).perform l = (.error e, l)) ∨
      checkRange first last l.firstKey = .ok () ∧
        ∃ l', (compact first last).perform l
            = (.ok (removalReport ps (ps.takeWhile (·.key ≤ last)).length), l') ∧
          l.TrimsTo (ps.drop (ps.takeWhile (·.key ≤ last)).length) l' := by
  rw [FileLog.compact, perform_get_bind, h.guard_open hopen, perform_decided_ok_bind,
    perform_get_bind]
  cases hrange : checkRange first last l.firstKey with
  | error e => exact .inl ⟨e, rfl, by rw [perform_decided_error_bind]⟩
  | ok _ =>
    obtain ⟨l', htrim, hto⟩ := h.trimThrough hopen last
    obtain ⟨hkeys, hweights⟩ := h.index_open hopen
    have hrest : l'.weight = Packet.totalWeight (ps.drop (ps.takeWhile (·.key ≤ last)).length) := by
      obtain ⟨hholds, -, hstill⟩ := hto
      rw [hholds.weight_eq, FileLog.totalWeight, (hholds.index_open hstill).2, Packet.totalWeight]
    rw [perform_decided_ok_bind, perform_bind_ok htrim, perform_get_bind, perform_pure]
    refine .inr ⟨rfl, l', ?_, hto⟩
    rw [removalReport, FileLog.totalWeight, Packet.totalWeight, List.map_take, List.map_take,
      hkeys, hweights, List.length_take, List.length_take, h.length_index hopen, hrest,
      List.map_take, List.map_take]

/-! ## Reading and closing -/

theorem LaidOut.firstMismatch?_eq {offset : Nat} {bs : Bytes} (h : LaidOut offset ps entries bs) :
    firstMismatch? entries ps = none := by
  induction h with
  | nil => rfl
  | cons _ _ _ ih =>
    simpa [firstMismatch?] using ih

theorem Holds.validate (h : l.Holds ps) (hopen : l.isClosed = false) :
    FileLog.validate.perform l = (.ok (), l) := by
  have hread := h.readEntries_take hopen ps.length
  obtain ⟨dead, entries, front, back, hkept, hpic⟩ := h
  have hindex := hpic.index_open hopen
  have hlen := hkept.live.length
  rw [hindex, ← hlen, List.take_length, hlen, List.take_length] at hread
  have hcheck : checkSequence (l.index.map (·.key)) (l.index.map (·.weight))
      ⟨l.announced.packets, l.weight⟩ = .ok () := by
    rw [hpic.announced, hpic.weight, hindex, hkept.live.totalWeight_eq, hkept.live.keys,
      hkept.live.weights, hlen]
    exact checkSequence_of_keyedFrom hkept.endsIn.keyed
  rw [FileLog.validate, perform_get_bind, hpic.guard_open hopen, perform_decided_ok_bind, hcheck]
  simp only [hindex, hread, hkept.live.firstMismatch?_eq]
  rfl

theorem Holds.close (h : l.Holds ps) :
    ∃ l', FileLog.close.perform l = (.ok (), l') ∧ l'.Holds ps ∧ l'.isClosed = true ∧
      l'.lastAppended = l.lastAppended := by
  obtain ⟨dead, entries, front, back, hkept, hpic⟩ := h
  exact ⟨_, rfl, ⟨dead, entries, front, back, hkept,
    ⟨rfl, rfl, rfl, hpic.headOffset, hpic.endOffset, by simp [announce], hpic.undamaged⟩⟩, rfl, rfl⟩

theorem dropWhile_eq_drop {α : Type} (f : α → Bool) (as : List α) :
    as.dropWhile f = as.drop (as.takeWhile f).length := by
  induction as with
  | nil => rfl
  | cons a as ih =>
    by_cases ha : f a = true
    · rw [List.dropWhile_cons_of_pos ha, List.takeWhile_cons_of_pos ha, ih, List.length_cons,
        List.drop_succ_cons]
    · rw [List.dropWhile_cons_of_neg ha, List.takeWhile_cons_of_neg ha, List.length_nil,
        List.drop_zero]

/-- The packets behind the first `count`, read from the data file. -/
theorem Pictures.readRecords_drop (hpic : Pictures l entries front back)
    (hdata : l.directory.data = some (front ++ back)) (hlive : LaidOut front.length ps entries back)
    (count : Nat) :
    (match (entries.drop count).head? with
      | some first => l.readRecords first.offset l.endOffset (entries.drop count).length
      | none => .ok ⟨[], none⟩) = .ok ⟨ps.drop count, none⟩ := by
  obtain ⟨middle, rest, rfl, hmiddle, hrest⟩ := hlive.split count
  by_cases hne : ps.drop count = []
  · rw [hne] at hrest
    rw [List.length_eq_zero_iff.1 hrest.length, hne]
    rfl
  · have hentries : entries.drop count ≠ [] := fun hnil => hne (List.length_eq_zero_iff.1 (by
      rw [← hrest.length, hnil]
      rfl))
    obtain ⟨first, hfirst⟩ := Option.ne_none_iff_exists'.1
      (mt List.head?_eq_none_iff.1 hentries)
    have hoffset : first.offset = (front ++ middle).length := by
      have := hrest.firstOffset hne
      rw [hfirst] at this
      rw [List.length_append]
      simpa using this
    have hend : front.length + middle.length + rest.length ≤ l.endOffset := by
      rw [hpic.endOffset, List.length_append]
      omega
    have hread := hrest.readMany_eq hend []
    rw [List.append_nil] at hread
    simp only [hfirst, readRecords, hdata, hoffset, ← List.append_assoc, List.drop_left,
      hrest.length]
    rw [List.length_append, hread]

theorem Pictures.readFrom (hpic : Pictures l entries front back) (hopen : l.isClosed = false)
    (hdata : l.directory.data = some (front ++ back)) (hlive : LaidOut front.length ps entries back)
    (start : Option Nat) :
    l.readFrom start = .ok ⟨start.elim ps fun key => ps.dropWhile (·.key < key), none⟩ := by
  have hread := hpic.readRecords_drop hdata hlive
  simp only [FileLog.readFrom, hpic.guard_open hopen, ok_bind, hpic.index_open hopen]
  cases start with
  | none => exact hread 0
  | some key =>
    have hcount := length_takeWhile_keys (decide <| · < key) hlive.keys
    simp only [Option.elim, dropWhile_eq_drop, hcount]
    exact hread _

theorem Holds.readFrom (h : l.Holds ps) (hopen : l.isClosed = false) (start : Option Nat) :
    l.readFrom start = .ok ⟨start.elim ps fun key => ps.dropWhile (·.key < key), none⟩ := by
  obtain ⟨dead, entries, front, back, hkept, hpic⟩ := h
  exact hpic.readFrom hopen hkept.data hkept.live start

end GroupReplication.FileLog
