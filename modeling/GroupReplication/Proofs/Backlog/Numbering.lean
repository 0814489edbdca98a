/-
The keys that a backlog issues, when nothing was ever added to the log it started over. They are 1,
2, 3 and so on in the order in which adds succeed, however often the log is emptied and the backlog
built again in between, and what the log keeps are the last of them.

The backlog numbers packets by its own count, the log only knows the last key that was added to it.
`Logged` has the two agree; that the count started at 1 is what `Numbered` adds.
-/
import GroupReplication.Proofs.Backlog.Resume
import GroupReplication.Proofs.Backlog.Retained

namespace GroupReplication

open Packet Log GroupReplication.Action

/-- A log that nothing was ever added to: one in memory, or one that was opened in a directory without
records and without a mark. -/
inductive PacketLog.New : PacketLog → Prop where
  | memory (name : String) (capacity : Option Nat) : New (.memory (.empty name capacity))
  | file {d : Directory} {options : FileOptions} {l : FileLog} (noRecords : d.data.getD [] = [])
      (noMark : d.head = none) (opened : (FileLog.openIn d options).1 = .ok l) : New (.file l)

theorem PacketLog.New.holds {l : PacketLog} (h : l.New) :
    l.Holds [] ∧ l.nextKey = 1 ∧ l.isClosed = false := by
  cases h with
  | memory name capacity => exact ⟨MemoryLog.holds_empty name capacity, rfl, rfl⟩
  | @file d options l hdata hhead hopened =>
    obtain ⟨hholds, hlast, hopen⟩ := FileLog.holds_openIn_fresh hdata hhead hopened
    refine ⟨hholds, ?_, hopen⟩
    show l.lastAppended.elim 1 (· + 1) = 1
    rw [hlast]
    rfl

/-! ## The keys that adds were answered -/

theorem max?_range'_one (n : Nat) : (List.range' 1 n).max?.getD 0 = n := by
  cases n with
  | zero => rfl
  | succ n =>
    have hmax : (List.range' 1 (n + 1)).max? = some (n + 1) := by
      rw [List.max?_eq_some_iff]
      simp only [List.mem_range'_1]
      exact ⟨by omega, fun key hkey => by omega⟩
    rw [hmax, Option.getD_some]

namespace Turn

/-- The keys that adds were answered, in the order of the adds. -/
def issued (turns : List Turn) : List Nat := turns.reverse.filterMap (·.added?.join)

theorem key_appended? (t : Turn) : t.appended?.map (·.key) = t.added?.join := by
  unfold appended?
  cases hadded : t.added? with
  | none => cases t.operation <;> rfl
  | some answer =>
    cases answer with
    | none => cases t.operation <;> rfl
    | some key =>
      cases hop : t.operation with
      | add payload transient fromGateway => rfl
      | _ => simp [added?, hop] at hadded

theorem issued_cons (t : Turn) (turns : List Turn) :
    issued (t :: turns) = issued turns ++ t.added?.join.toList := by
  rw [issued, List.reverse_cons, List.filterMap_append]
  cases h : t.added?.join <;> simp [issued, h]

/-- Every key that was answered belongs to a packet that was logged, and the other way round. -/
theorem issued_eq_appended (turns : List Turn) : issued turns = (appended turns).map (·.key) := by
  induction turns with
  | nil => rfl
  | cons t turns ih =>
    rw [issued_cons, ih, appended, List.map_append, ← key_appended?]
    cases t.appended? <;> rfl

end Turn

/-! ## What every event preserves -/

/-- The log that a backlog is built over again is open. -/
theorem Logged.isOpen_rebuilt {b : Backlog} {history : List Packet} (h : Logged b history)
    (hkey : b.nextKey < 2 ^ 64) (hopen : b.log.isClosed = false) (membership : Membership)
    (settings : BacklogSettings) (options : FileOptions) :
    (b.rebuilt membership settings options).log.isClosed = false := by
  obtain ⟨ps, hholds, -⟩ := h.kept
  have hnext := h.next
  unfold Backlog.rebuilt
  cases hlog : b.log with
  | memory l => exact hopen
  | file l =>
    rw [hlog] at hholds hnext
    have hlast : following l.lastAppended < 2 ^ 64 := by
      rw [hnext] at hkey
      exact hkey
    obtain ⟨l', hopened, -, -, hstill⟩ := FileLog.Holds.openIn hholds
      (Nat.lt_of_le_of_lt (Nat.sub_le _ _) hlast) options
    simp only [hopened]
    exact hstill

namespace Run

/-- A run that has issued all keys below the next one, beginning with 1. -/
structure Numbered (r : Run) : Prop where
  accounts : r.Accounts []
  next : r.backlog.nextKey = (Turn.issued r.turns).length + 1

variable {r : Run}

theorem Numbered.logged (h : r.Numbered) : Logged r.backlog (Turn.appended r.turns) := by
  have := h.accounts.logged
  rwa [List.nil_append] at this

theorem Numbered.keyed (h : r.Numbered) : KeyedFrom 1 (Turn.appended r.turns) := by
  have hkeyed := h.logged.keyed
  rwa [h.next, Turn.issued_eq_appended, List.length_map, Nat.add_sub_cancel_left] at hkeyed

theorem numbered_start {log : PacketLog} (hlog : log.New) (membership : Membership)
    (settings : BacklogSettings) : (Run.start (.ofLog membership settings log)).Numbered where
  accounts := accounts_start membership settings hlog.holds.1
  next := hlog.holds.2.1

/-- No event takes back a key that was issued. -/
theorem issued_undergo_le (r : Run) (event : BacklogEvent) :
    (Turn.issued r.turns).length ≤ (Turn.issued (r.undergo event).turns).length := by
  cases event with
  | operate op =>
    show _ ≤ (Turn.issued (⟨r.backlog, op⟩ :: r.turns)).length
    rw [Turn.issued_cons, List.length_append]
    exact Nat.le_add_right _ _
  | rebuild membership settings options => exact Nat.le_refl _

theorem issued_undergoAll_le (r : Run) (events : List BacklogEvent) :
    (Turn.issued r.turns).length ≤ (Turn.issued (r.undergoAll events).turns).length := by
  induction events generalizing r with
  | nil => exact Nat.le_refl _
  | cons event events ih => exact Nat.le_trans (r.issued_undergo_le event) (ih (r.undergo event))

theorem Numbered.undergo (h : r.Numbered) (hkey : r.backlog.nextKey < 2 ^ 64) (event : BacklogEvent) :
    (r.undergo event).Numbered := by
  refine ⟨h.accounts.undergo hkey event, ?_⟩
  cases event with
  | operate op =>
    obtain ⟨ps, hholds, -⟩ := h.logged.kept
    show (op.after r.backlog).nextKey = (Turn.issued (⟨r.backlog, op⟩ :: r.turns)).length + 1
    rw [(Backlog.becomes_after hholds hkey op).nextKey, h.next, Turn.issued_cons, List.length_append,
      ← Turn.key_appended?]
    cases Turn.appended? ⟨r.backlog, op⟩ <;> simp
  | rebuild membership settings options =>
    exact (h.logged.rebuilt hkey membership settings options).2.trans h.next

/-- A run that is left with a key to issue had one to issue all along. -/
theorem Numbered.keyLeft (h : r.Numbered) {events : List BacklogEvent}
    (hkeys : (Turn.issued (r.undergoAll events).turns).length + 1 < 2 ^ 64) :
    r.backlog.nextKey < 2 ^ 64 := by
  have hle := r.issued_undergoAll_le events
  rw [h.next]
  omega

theorem Numbered.undergoAll (h : r.Numbered) (events : List BacklogEvent)
    (hkeys : (Turn.issued (r.undergoAll events).turns).length + 1 < 2 ^ 64) :
    (r.undergoAll events).Numbered := by
  induction events generalizing r with
  | nil => exact h
  | cons event events ih =>
    exact ih (h.undergo (h.keyLeft hkeys) event) hkeys

/-- Only a close leaves a run with a log that is closed. -/
theorem Numbered.isOpen_undergo (h : r.Numbered) (hkey : r.backlog.nextKey < 2 ^ 64)
    (hopen : r.backlog.log.isClosed = false) {event : BacklogEvent} (hclose : event ≠ .operate .close) :
    (r.undergo event).backlog.log.isClosed = false := by
  cases event with
  | operate op =>
    obtain ⟨ps, hholds, -⟩ := h.logged.kept
    exact (Backlog.becomes_after hholds hkey op).isClosed (fun heq => hclose (heq ▸ rfl)) hopen
  | rebuild membership settings options =>
    exact h.logged.isOpen_rebuilt hkey hopen membership settings options

theorem Numbered.isOpen_undergoAll (h : r.Numbered) (hopen : r.backlog.log.isClosed = false)
    (events : List BacklogEvent) (hclose : .operate .close ∉ events)
    (hkeys : (Turn.issued (r.undergoAll events).turns).length + 1 < 2 ^ 64) :
    (r.undergoAll events).backlog.log.isClosed = false := by
  induction events generalizing r with
  | nil => exact hopen
  | cons event events ih =>
    have hkey := h.keyLeft hkeys
    obtain ⟨hthis, hrest⟩ := not_or.1 (mt List.mem_cons.2 hclose)
    exact ih (h.undergo hkey event) (h.isOpen_undergo hkey hopen (Ne.symm hthis)) hrest hkeys

end Run

/-! ## Keys are dense -/

/-- Over a log that nothing was ever added to, and in any run, restarts included, that leaves keys to
issue: adds were answered 1, 2, 3 and so on in their order; the next key is one more than the highest
of these, and 1 as long as there is none; until it is closed the log is open; and an open log gives
its reader the last of the packets that were added, whose keys are consecutive and end right below the
next key. -/
theorem Backlog.keys_dense {log : PacketLog} (hlog : log.New) (membership : Membership)
    (settings : BacklogSettings) (events : List BacklogEvent) :
    let r := (Run.start (.ofLog membership settings log)).undergoAll events
    let keys := Turn.issued r.turns
    keys.length + 1 < 2 ^ 64 →
    keys = List.range' 1 keys.length ∧
    r.backlog.nextKey = keys.max?.getD 0 + 1 ∧
    (.operate .close ∉ events → r.backlog.log.isClosed = false) ∧
    (r.backlog.log.isClosed = false → ∃ kept first,
      r.backlog.log.readFrom none = .ok ⟨kept, none⟩ ∧ kept <:+ Turn.appended r.turns ∧
      1 ≤ first ∧ first ≤ r.backlog.nextKey ∧
      kept.map (·.key) = List.range' first (r.backlog.nextKey - first)) := by
  intro r keys hkeys
  have hstart := Run.numbered_start hlog membership settings
  have hnumbered : r.Numbered := hstart.undergoAll events hkeys
  have hdense : keys = List.range' 1 keys.length := by
    have hrange := keyedFrom_iff.1 hnumbered.keyed
    rwa [← Turn.issued_eq_appended, ← List.length_map (·.key), ← Turn.issued_eq_appended] at hrange
  refine ⟨hdense, ?_, fun hclose => ?_, fun hopen => ?_⟩
  · rw [hnumbered.next, hdense, max?_range'_one]
  · exact hstart.isOpen_undergoAll hlog.holds.2.2 events hclose hkeys
  · obtain ⟨kept, hholds, hsuffix⟩ := hnumbered.logged.kept
    have hkeyed := hholds.keyed
    have hlength := hsuffix.length_le
    rw [← hnumbered.logged.next] at hkeyed
    have hcount : (Turn.issued r.turns).length = (Turn.appended r.turns).length := by
      rw [Turn.issued_eq_appended, List.length_map]
    have hnext := hnumbered.next
    refine ⟨kept, r.backlog.nextKey - kept.length, hholds.readAll hopen, hsuffix, by omega,
      Nat.sub_le _ _, ?_⟩
    rw [keyedFrom_iff.1 hkeyed, Nat.sub_sub_self (by omega)]

/-- What happened to a backlog over the log of a new directory: an add found nobody, the third one
pushed out the packet of the second, the fourth was rejected once the backlog was built again with
another policy, and the log was emptied when its only target left. -/
def Backlog.renewed : List BacklogEvent :=
  [.operate (.add (.entry (.write ⟨"Order", "a", 1, [], none⟩)) false false),
    .operate (.handshake "backup" ⟨true, 0, none⟩),
    .operate (.add (.entry (.write ⟨"Order", "a", 1, [], none⟩)) false false),
    .operate (.add (.entry (.write ⟨"Order", "b", 1, [], none⟩)) false false),
    .rebuild (.openTo "orders") ⟨1, .reject, 10, 1000, 1⟩ ⟨none, 1000⟩,
    .operate (.handshake "backup" ⟨true, 0, none⟩),
    .operate (.add (.entry (.write ⟨"Order", "c", 1, [], none⟩)) false false),
    .operate (.detach "backup"),
    .rebuild (.openTo "orders") ⟨1, .reject, 10, 1000, 1⟩ ⟨none, 1000⟩,
    .operate (.handshake "backup" ⟨true, 0, none⟩),
    .operate (.add (.entry (.write ⟨"Order", "d", 1, [], none⟩)) false false)]

/-- Three of the five adds were answered a key, and the log has the last packet. -/
theorem Backlog.keys_dense_renewed :
    let r := (Run.start (.ofLog (.openTo "orders") ⟨1, .discardOldest, 10, 1000, 1⟩
      (.file .created))).undergoAll renewed
    (Turn.issued r.turns).length + 1 < 2 ^ 64 ∧ .operate .close ∉ renewed ∧
      Turn.issued r.turns = [1, 2, 3] ∧ r.backlog.nextKey = 4 ∧
      ∃ kept, r.backlog.log.readFrom none = .ok ⟨kept, none⟩ ∧ kept <:+ Turn.appended r.turns ∧
        kept.map (·.key) = [3] := by
  intro r
  have hcreated : (PacketLog.file .created).New :=
    .file (d := ⟨"orders", true, none, none⟩) rfl rfl (eq_ok_of_toOption (Option.some_get _).symm)
  have hcount : (Turn.issued r.turns).length = 3 := by decide +kernel
  have hclose : BacklogEvent.operate .close ∉ renewed := by simp [renewed]
  obtain ⟨hdense, hnext, hopen, hkept⟩ := keys_dense hcreated (.openTo "orders")
    ⟨1, .discardOldest, 10, 1000, 1⟩ renewed (show (Turn.issued r.turns).length + 1 < 2 ^ 64 by omega)
  have hkeys : Turn.issued r.turns = [1, 2, 3] := by
    rw [show Turn.issued r.turns = _ from hdense, show (Turn.issued _).length = 3 from hcount]
    rfl
  have hfour : r.backlog.nextKey = 4 := by
    rw [show r.backlog.nextKey = _ from hnext, show Turn.issued _ = _ from hkeys]
    rfl
  obtain ⟨kept, first, hread, hlast, -⟩ := hkept (hopen hclose)
  have hpackets : r.backlog.log.packets.map (·.key) = [3] := by decide +kernel
  rw [PacketLog.packets, show r.backlog.log.readFrom none = _ from hread] at hpackets
  exact ⟨by omega, hclose, hkeys, hfour, kept, hread, hlast, hpackets⟩

end GroupReplication
