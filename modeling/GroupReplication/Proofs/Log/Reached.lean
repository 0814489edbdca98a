/-
The logs that can come about in a directory, and what their directories look like byte by byte:
the data file is the records of some packets with consecutive keys, one behind the other, and the
mark is one that was written by a trim.
-/
import GroupReplication.Proofs.Log.Calls

namespace GroupReplication.FileLog

open GroupReplication.Action Log

variable {l k : FileLog} {ps : List Packet}

/-- The first half of a trim: the entries leave the index and the mark moves; the data file is as
it was. -/
def moveMark (count : Nat) : Action FileLog Unit := do
  set ((← get).dropHead count)
  writeHead

theorem perform_moveMark (count : Nat) (l : FileLog) :
    (moveMark count).perform l = writeHead.perform (l.dropHead count) := by
  rw [moveMark, perform_get_bind, perform_set_bind]

/-- A trim moves the mark, and then copies the live records if that is due. -/
theorem perform_trimHead {count : Nat} (hpos : 0 < count) (l : FileLog) :
    (trimHead count).perform l =
      (moveMark count >>= fun _ => reclaim >>= fun _ => pure (l.index.take count)).perform l := by
  rw [trimHead, perform_get_bind, if_neg (Nat.ne_of_gt hpos), perform_set_bind, perform_bind,
    perform_bind, perform_moveMark]

theorem Holds.moveMark (h : l.Holds ps) (hopen : l.isClosed = false) {count : Nat}
    (hpos : 0 < count) (hcount : count ≤ ps.length) :
    ∃ l', (FileLog.moveMark count).perform l = (.ok (), l') ∧ l.TrimsTo (ps.drop count) l' := by
  obtain ⟨hholds, hwrite⟩ := h.remarked hopen hpos hcount
  exact ⟨l.remarked count ps, by rw [perform_moveMark, hwrite], hholds, rfl, hopen⟩

/-- A log that was opened in a directory without records and without a mark, and came to where it
is by calls with packets whose numbers fit their fields. On the way it may have been dropped or
closed and opened again, and stopped in the middle of a trim and opened again. -/
inductive Reached : FileLog → Prop where
  | opened {d : Directory} {options : FileOptions} {l : FileLog} (noRecords : d.data.getD [] = [])
      (noMark : d.head = none) (opened : (FileLog.openIn d options).1 = .ok l) : Reached l
  | called {l l' : FileLog} (c : LogCall) (before : Reached l) (fits : c.Fits)
      (called : ((PacketLog.answer c).perform (.file l)).2 = .file l') : Reached l'
  | reopened {l l' : FileLog} {options : FileOptions} (before : Reached l)
      (opened : (FileLog.openIn l.directory options).1 = .ok l') : Reached l'
  | stopped {l l' : FileLog} {count : Nat} {options : FileOptions} (before : Reached l)
      (isOpen : l.isClosed = false) (pos : 0 < count) (within : count ≤ l.index.length)
      (opened : (FileLog.openIn ((moveMark count).perform l).2.directory options).1 = .ok l') :
      Reached l'

namespace Reached

theorem holds (h : l.Reached) : ∃ ps, l.Holds ps := by
  induction h with
  | opened hdata hhead hopened => exact ⟨[], (holds_openIn_fresh hdata hhead hopened).1⟩
  | @called l l' c _ hfits hcalled ih =>
    obtain ⟨ps, hps⟩ := ih
    obtain ⟨qs, hqs⟩ := PacketLog.Holds.answer (l := .file l) hps hfits
    rw [hcalled] at hqs
    exact ⟨qs, hqs⟩
  | @reopened l l' options _ hopened ih =>
    obtain ⟨ps, hps⟩ := ih
    obtain ⟨k, qs, hok, hholds⟩ := hps.openIn_any options
    rw [hok] at hopened
    cases hopened
    exact ⟨qs, hholds⟩
  | @stopped l l' count options _ hopen hpos hcount hopened ih =>
    obtain ⟨ps, hps⟩ := ih
    rw [hps.length_index hopen] at hcount
    obtain ⟨stopped, hmark, hheld, -⟩ := hps.moveMark hopen hpos hcount
    obtain ⟨k, qs, hok, hholds⟩ := hheld.openIn_any options
    rw [hmark, hok] at hopened
    cases hopened
    exact ⟨qs, hholds⟩

theorem after (h : l.Reached) {calls : List LogCall} (hcalls : ∀ c ∈ calls, c.Fits)
    (hafter : PacketLog.after calls (.file l) = .file k) : k.Reached := by
  induction calls generalizing l with
  | nil =>
    cases hafter
    exact h
  | cons c calls ih =>
    obtain ⟨l', hl'⟩ := PacketLog.after_file [c] l
    refine ih (h.called c (hcalls c (by simp)) hl') (fun c hc => hcalls c (by simp [hc])) ?_
    rw [← hl']
    exact hafter

theorem append (h : l.Reached) {added : List Packet} (hadded : ∀ p ∈ added, p.Fits) :
    ((FileLog.append added).perform l).2.Reached := by
  refine h.called (.append added) hadded ?_
  rw [PacketLog.answer, perform_map, PacketLog.append, PacketLog.perform_either]

end Reached

/-- The log of a new directory. -/
def new (path : String) (options : FileOptions) : FileLog :=
  recovered ⟨path, true, some [], none⟩ options none ⟨[], 0, false⟩

theorem openIn_new (path : String) (options : FileOptions) :
    (FileLog.openIn ⟨path, true, none, none⟩ options).1 = .ok (new path options) := by
  simp [FileLog.openIn, Directory.make, Directory.readHead, Directory.create, Record.scan,
    Record.read]
  rfl

theorem reached_new (path : String) (options : FileOptions) : (new path options).Reached :=
  .opened rfl rfl (openIn_new path options)

/-- The data file of a directory is the records of `stored`, one behind the other, and its mark was
written by a trim. -/
structure Stores (d : Directory) (stored : List Packet) (records : List Bytes) : Prop where
  present : d.present = true
  data : d.data = some records.flatten
  encoded : stored.mapM Record.encode = .ok records
  fits : ∀ p ∈ stored, p.Fits
  keyed : ∃ key, Packet.KeyedFrom key stored
  marked : d.head = none ∨ ∃ key, d.head = some (Directory.headMarker key)

theorem Holds.stores (h : l.Holds ps) : ∃ stored records, Stores l.directory stored records := by
  obtain ⟨dead, entries, front, back, hkept, -⟩ := h
  obtain ⟨deadEntries, hdead⟩ := hkept.gone
  have hall := hdead.append (by rw [Nat.zero_add]; exact hkept.live)
  obtain ⟨records, hrecords, hbytes⟩ := hall.encoded
  refine ⟨dead ++ ps, records, hkept.present, by rw [hkept.data, hbytes], hrecords, hall.fits,
    ⟨_, hkept.keyed_all⟩, ?_⟩
  rcases hkept.marked with ⟨hnone | hzero, -⟩ | ⟨hhead, -⟩
  · exact .inl hnone
  · exact .inr ⟨0, hzero⟩
  · exact .inr ⟨_, hhead⟩

theorem Stores.readHead {d : Directory} {stored : List Packet} {records : List Bytes}
    (h : Stores d stored records) : ∃ mark, d.readHead = .ok mark := by
  rcases h.marked with hnone | ⟨key, hkey⟩
  · exact ⟨none, by rw [Directory.readHead, hnone]⟩
  · exact ⟨_, Directory.readHead_marked hkey⟩

end GroupReplication.FileLog
