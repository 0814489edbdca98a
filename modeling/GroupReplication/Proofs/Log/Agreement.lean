/-
Logs without a limit that hold the same packets cannot be told apart by calls, wherever they keep
them: a log in memory, a log in a directory that copies its live records at once, and one that
never does answer every run of calls alike.

Each call keeps two such logs alike (`Alike.answer`), because what it answers and what it leaves
depend on nothing but what is alike in them.
-/
import GroupReplication.Proofs.Log.Calls

namespace GroupReplication

open GroupReplication.Action Log

/-! ## What no call changes -/

namespace MemoryLog

/-- The name and the limit of a log. -/
def Stays (name : String) (capacity : Option Nat) (l : MemoryLog) : Prop :=
  l.name = name ∧ l.capacity = capacity

variable {name : String} {capacity : Option Nat}

theorem keeps_append (added : List Packet) : Keeps (Stays name capacity) (append added) :=
  .getting fun _ hl => .bind (.decided _) fun _ => .bind (.decided _) fun _ =>
    .bind (.decided _) fun _ => .set hl

theorem keeps_takeHead (limit : Option Nat) (removable : Packet → Bool) :
    Keeps (Stays name capacity) (takeHead limit removable) :=
  .getting fun _ hl => .bind (.set hl) fun _ => .pure _

theorem keeps_removeFirst (count : Nat) (frontier : Option Nat) :
    Keeps (Stays name capacity) (removeFirst count frontier) :=
  .bind .get fun _ => .bind (.decided _) fun _ => keeps_takeHead _ _

theorem keeps_deleteOldest (last : Nat) : Keeps (Stays name capacity) (deleteOldest last) :=
  .bind .get fun _ => .bind (.decided _) fun _ => .bind (keeps_takeHead _ _) fun _ => .pure _

theorem keeps_compact (first last : Nat) : Keeps (Stays name capacity) (compact first last) :=
  .bind .get fun _ => .bind (.decided _) fun _ => .bind .get fun _ => .bind (.decided _) fun _ =>
    .bind (keeps_takeHead _ _) fun _ => .bind .get fun _ => .pure _

theorem keeps_validate : Keeps (Stays name capacity) validate :=
  .getting fun l hl => .bind (.decided _) fun _ => by
    split
    · exact .pure _
    · exact .bind (.set hl) fun _ => .throw _

theorem keeps_close : Keeps (Stays name capacity) close := .modify fun _ hl => hl

/-- A log without a limit refuses packets only for their keys. -/
theorem Holds.append_answer {l : MemoryLog} {ps : List Packet} (h : l.Holds ps)
    (hopen : l.closed = false) (hlimit : l.capacity = none) (added : List Packet) :
    ((MemoryLog.append added).perform l).1 = checkAppend l.lastAppended (added.map (·.key)) := by
  have hroom : l.checkCapacity added.length = .ok () := by rw [checkCapacity, hlimit]
  rw [MemoryLog.append, perform_get_bind, h.guard_open hopen, perform_decided_ok_bind]
  cases checkAppend l.lastAppended (added.map (·.key)) with
  | error e => rw [perform_decided_error_bind]
  | ok _ =>
    rw [perform_decided_ok_bind, hroom]
    rfl

end MemoryLog

namespace FileLog

/-- The place and the options of a log. -/
def Stays (path : String) (options : FileOptions) (l : FileLog) : Prop :=
  l.directory.path = path ∧ l.options = options

variable {path : String} {options : FileOptions}

theorem keeps_condemn {α : Type} (damage : LogDamage) :
    Keeps (Stays path options) (condemn damage : Action FileLog α) :=
  .bind (.modify fun _ hl => hl) fun _ => .bind .get fun _ => .throw _

theorem Stays.write {l : FileLog} (h : l.Stays path options) (bs : Bytes) :
    (l.write bs).Stays path options := by
  unfold FileLog.write
  split
  · exact h
  · exact h

theorem keeps_append (added : List Packet) : Keeps (Stays path options) (append added) :=
  .getting fun _ hl => .bind (.decided _) fun _ => .bind (.decided _) fun _ =>
    .bind (.decided _) fun (_, bs) => .bind (.decided _) fun _ => .set (hl.write bs)

theorem keeps_writeHead : Keeps (Stays path options) writeHead :=
  .getting fun l hl => by
    dsimp only
    split
    · rename_i d hd
      have hpath : d.path = l.directory.path := by
        unfold Directory.writeHead at hd
        split at hd <;> cases hd
        rfl
      exact .set ⟨hpath.trans hl.1, hl.2⟩
    · exact keeps_condemn _

theorem keeps_reclaim : Keeps (Stays path options) reclaim :=
  .getting fun l hl => by
    refine .ite ?_ (.pure _)
    split
    · exact keeps_condemn _
    · dsimp only
      exact .ite (.bind (keeps_condemn _) fun _ => .set hl) (.set hl)

theorem keeps_trimHead (count : Nat) : Keeps (Stays path options) (trimHead count) :=
  .getting fun _ hl => .ite (.pure _) (.bind (.set hl) fun _ => .bind keeps_writeHead fun _ =>
    .bind keeps_reclaim fun _ => .pure _)

theorem keeps_trimThrough (last : Nat) : Keeps (Stays path options) (trimThrough last) :=
  .bind .get fun _ => keeps_trimHead _

theorem keeps_removeFirst (count : Nat) (frontier : Option Nat) :
    Keeps (Stays path options) (removeFirst count frontier) :=
  .bind .get fun _ => .bind (.decided _) fun _ => .bind (.decided _) fun _ =>
    .bind (keeps_trimHead _).discard fun _ => .pure _

theorem keeps_deleteOldest (last : Nat) : Keeps (Stays path options) (deleteOldest last) :=
  .bind .get fun _ => .bind (.decided _) fun _ => .bind (keeps_trimThrough _) fun _ => .pure _

theorem keeps_compact (first last : Nat) : Keeps (Stays path options) (compact first last) :=
  .bind .get fun _ => .bind (.decided _) fun _ => .bind .get fun _ => .bind (.decided _) fun _ =>
    .bind (keeps_trimThrough _) fun _ => .bind .get fun _ => .pure _

theorem keeps_validate : Keeps (Stays path options) validate :=
  .bind .get fun _ => .bind (.decided _) fun _ => by
    split
    · exact keeps_condemn _
    · split
      · exact keeps_condemn _
      · split
        · exact keeps_condemn _
        · exact .pure _

theorem keeps_close : Keeps (Stays path options) close := .modify fun _ hl => hl

theorem exists_layOut {ps : List Packet} (h : ∀ p ∈ ps, (Record.encode p).isOk = true)
    (offset : Nat) : ∃ entries bs, layOut offset ps = .ok (entries, bs) := by
  induction ps generalizing offset with
  | nil => exact ⟨[], [], rfl⟩
  | cons p ps ih =>
    obtain ⟨record, hrecord⟩ := eq_ok_of_isOk (h p (by simp))
    obtain ⟨entries, bs, hrest⟩ := ih (fun q hq => h q (by simp [hq])) (offset + record.length)
    refine ⟨⟨p.key, offset, record.length, p.weight⟩ :: entries, record ++ bs, ?_⟩
    rw [layOut, hrecord, ok_bind, hrest]
    rfl

/-- A log without a limit refuses packets that can be written only for their keys. -/
theorem Holds.append_answer {l : FileLog} {ps : List Packet} (h : l.Holds ps)
    (hopen : l.isClosed = false) (hlimit : l.options.maxBytes = none) {added : List Packet}
    (hadded : ∀ p ∈ added, (Record.encode p).isOk = true) :
    ((FileLog.append added).perform l).1 = checkAppend l.lastAppended (added.map (·.key)) := by
  obtain ⟨entries, bs, hlay⟩ := exists_layOut hadded l.endOffset
  have hroom : l.checkCapacity bs.length = .ok () := by rw [checkCapacity, hlimit]
  rw [FileLog.append, perform_get_bind, h.guard_open hopen, perform_decided_ok_bind]
  cases checkAppend l.lastAppended (added.map (·.key)) with
  | error e => rw [perform_decided_error_bind]
  | ok _ =>
    rw [perform_decided_ok_bind, hlay]
    rw [show (Except.ok (entries, bs)).mapError Error.protocol = .ok (entries, bs) from rfl,
      perform_decided_ok_bind]
    simp only [hroom, perform_decided_ok_bind]
    rfl

end FileLog

namespace PacketLog

/-- Whatever fits is taken in. -/
def Unlimited : PacketLog → Prop
  | .memory l => l.capacity = none
  | .file l => l.options.maxBytes = none

theorem keeps_either {α : Type} {P : PacketLog → Prop} {onMemory : Action MemoryLog α}
    {onFile : Action FileLog α} (hmemory : Keeps (fun l => P (.memory l)) onMemory)
    (hfile : Keeps (fun l => P (.file l)) onFile) : Keeps P (either onMemory onFile) := by
  intro l hl
  rw [perform_either]
  cases l with
  | memory l => exact hmemory l hl
  | file l => exact hfile l hl

/-- What depends on no more of a log than its name or place, and its limit or options. -/
structure Steady (P : PacketLog → Prop) : Prop where
  memory : ∀ {l l' : MemoryLog}, l'.Stays l.name l.capacity → P (.memory l) → P (.memory l')
  file : ∀ {l l' : FileLog}, l'.Stays l.directory.path l.options → P (.file l) → P (.file l')

namespace Steady

variable {P : PacketLog → Prop}

theorem keeps_either {α : Type} {onMemory : Action MemoryLog α} {onFile : Action FileLog α}
    (h : Steady P) (hmemory : ∀ name capacity, Keeps (MemoryLog.Stays name capacity) onMemory)
    (hfile : ∀ path options, Keeps (FileLog.Stays path options) onFile) :
    Keeps P (either onMemory onFile) :=
  PacketLog.keeps_either (fun l hl => h.memory (hmemory l.name l.capacity l ⟨rfl, rfl⟩) hl)
    fun l hl => h.file (hfile l.directory.path l.options l ⟨rfl, rfl⟩) hl

theorem keeps_answer (h : Steady P) (c : LogCall) : Keeps P (answer c) := by
  have hmap : ∀ {α : Type} {act : Action PacketLog α} (f : α → LogAnswer),
      Keeps P act → Keeps P (f <$> act) := fun f h l hl => by
    rw [perform_map]
    exact h l hl
  cases c with
  | append added =>
    exact hmap _ (h.keeps_either (fun _ _ => MemoryLog.keeps_append _)
      fun _ _ => FileLog.keeps_append _)
  | removeFirst count frontier =>
    exact hmap _ (h.keeps_either (fun _ _ => MemoryLog.keeps_removeFirst _ _)
      fun _ _ => FileLog.keeps_removeFirst _ _)
  | deleteOldest last =>
    exact hmap _ (h.keeps_either (fun _ _ => MemoryLog.keeps_deleteOldest _)
      fun _ _ => FileLog.keeps_deleteOldest _)
  | compact first last =>
    exact hmap _ (h.keeps_either (fun _ _ => MemoryLog.keeps_compact _ _)
      fun _ _ => FileLog.keeps_compact _ _)
  | readFrom start => exact hmap _ (.bind .get fun _ => .decided _)
  | validate =>
    exact hmap _ (h.keeps_either (fun _ _ => MemoryLog.keeps_validate)
      fun _ _ => FileLog.keeps_validate)
  | close =>
    exact hmap _ (h.keeps_either (fun _ _ => MemoryLog.keeps_close) fun _ _ => FileLog.keeps_close)
  | look => exact hmap _ .get

theorem after (h : Steady P) (calls : List LogCall) {l : PacketLog} (hl : P l) :
    P (after calls l) := by
  induction calls generalizing l with
  | nil => exact hl
  | cons c calls ih => exact ih (h.keeps_answer c l hl)

end Steady

theorem steady_name (name : String) : Steady fun l => l.name = name where
  memory hstays hl := hstays.1.trans hl
  file hstays hl := (congrArg Path.name hstays.1).trans hl

/-- The name of a log that has no limit. -/
def Settled (name : String) (l : PacketLog) : Prop := l.name = name ∧ l.Unlimited

theorem steady_settled (name : String) : Steady (Settled name) where
  memory hstays hl := ⟨(steady_name name).memory hstays hl.1, hstays.2.trans hl.2⟩
  file hstays hl := ⟨(steady_name name).file hstays hl.1,
    (congrArg FileOptions.maxBytes hstays.2).trans hl.2⟩

/-! ## Alike logs -/

/-- Two logs without a limit of which everything is the same that calls can tell: name, packets,
how far keys have come, and whether they are closed. -/
structure Alike (l k : PacketLog) (ps : List Packet) : Prop where
  left : l.Holds ps
  right : k.Holds ps
  unlimited : l.Unlimited ∧ k.Unlimited
  name : l.name = k.name
  lastAppended : l.lastAppended = k.lastAppended
  isClosed : l.isClosed = k.isClosed

/-- The logs answer the call alike, and are alike afterwards. -/
def AnswersAlike (c : LogCall) (l k : PacketLog) : Prop :=
  ((answer c).perform l).1 = ((answer c).perform k).1 ∧
    ∃ qs, Alike ((answer c).perform l).2 ((answer c).perform k).2 qs

variable {l k : PacketLog} {ps : List Packet}

namespace Alike

theorem view_eq (h : Alike l k ps) : l.view = k.view := by
  rw [h.left.view_eq, h.right.view_eq, h.lastAppended, h.isClosed]

/-- A call is answered alike and keeps the logs alike, if it gives the same answer and leaves the
same packets, and does the same to the rest. -/
theorem of_both (h : Alike l k ps) {c : LogCall} {r : Except Error LogAnswer}
    {l' k' : PacketLog} {qs : List Packet} (hl : (answer c).perform l = (r, l'))
    (hk : (answer c).perform k = (r, k')) (hleft : l'.Holds qs) (hright : k'.Holds qs)
    (hlast : l'.lastAppended = k'.lastAppended) (hclosed : l'.isClosed = k'.isClosed) :
    AnswersAlike c l k := by
  have hsettled := (steady_settled k.name).keeps_answer c l ⟨h.name, h.unlimited.1⟩
  have hsettled' := (steady_settled k.name).keeps_answer c k ⟨rfl, h.unlimited.2⟩
  rw [hl] at hsettled
  rw [hk] at hsettled'
  rw [AnswersAlike, hl, hk]
  exact ⟨rfl, qs, hleft, hright, ⟨hsettled.2, hsettled'.2⟩, hsettled.1.trans hsettled'.1.symm,
    hlast, hclosed⟩

theorem of_trims (h : Alike l k ps) {c : LogCall} {r : Except Error LogAnswer}
    {l' k' : PacketLog} {qs : List Packet} (hl : (answer c).perform l = (r, l'))
    (hk : (answer c).perform k = (r, k')) (hleft : l.TrimsTo qs l') (hright : k.TrimsTo qs k') :
    AnswersAlike c l k :=
  h.of_both hl hk hleft.holds hright.holds
    (by rw [hleft.lastAppended, hright.lastAppended, h.lastAppended])
    (by rw [hleft.isClosed, hright.isClosed, h.isClosed])

theorem of_unchanged (h : Alike l k ps) {c : LogCall} {r : Except Error LogAnswer}
    (hl : (answer c).perform l = (r, l)) (hk : (answer c).perform k = (r, k)) :
    AnswersAlike c l k :=
  h.of_both hl hk h.left h.right h.lastAppended h.isClosed

end Alike

/-- A log without a limit refuses packets that can be written only for their keys. -/
theorem Holds.append_answer (h : l.Holds ps) (hopen : l.isClosed = false) (hlimit : l.Unlimited)
    {added : List Packet} (hadded : ∀ p ∈ added, (Record.encode p).isOk = true) :
    ((PacketLog.append added).perform l).1 = checkAppend l.lastAppended (added.map (·.key)) := by
  rw [PacketLog.append, perform_either]
  cases l with
  | memory l => exact MemoryLog.Holds.append_answer h hopen hlimit added
  | file l => exact FileLog.Holds.append_answer h hopen hlimit hadded

namespace Alike

theorem append (h : Alike l k ps) (hopen : l.isClosed = false) {added : List Packet}
    (hadded : (LogCall.append added).Encodable) : AnswersAlike (.append added) l k := by
  obtain ⟨hfits, hencodes⟩ : (∀ p ∈ added, p.Fits) ∧ ∀ p ∈ added, (Record.encode p).isOk = true :=
    hadded
  have hleft := h.left.append_answer hopen h.unlimited.1 hencodes
  have hright := h.right.append_answer (h.isClosed ▸ hopen) h.unlimited.2 hencodes
  rw [← h.lastAppended, ← hleft] at hright
  rcases h.left.append hfits with ⟨e, hl⟩ | ⟨-, -, l', hl, hholds, hlast, hstill⟩
  · rcases h.right.append hfits with ⟨e', hk⟩ | ⟨-, -, k', hk, -⟩
    · rw [hl, hk] at hright
      cases hright
      exact h.of_unchanged (perform_map_of hl _) (perform_map_of hk _)
    · rw [hl, hk] at hright
      cases hright
  · rcases h.right.append hfits with ⟨e', hk⟩ | ⟨-, -, k', hk, hholds', hlast', hstill'⟩
    · rw [hl, hk] at hright
      cases hright
    · exact h.of_both (perform_map_of hl _) (perform_map_of hk _) hholds hholds'
        (by rw [hlast, hlast', h.lastAppended]) (by rw [hstill, hstill'])

theorem compact (h : Alike l k ps) (hopen : l.isClosed = false) (first last : Nat) :
    AnswersAlike (.compact first last) l k := by
  rcases h.left.compact hopen first last with ⟨e, hrange, hl⟩ | ⟨hrange, l', hl, hleft⟩
  · rcases h.right.compact (h.isClosed ▸ hopen) first last with ⟨e', hrange', hk⟩ | ⟨hrange', -⟩
    · rw [hrange] at hrange'
      cases hrange'
      exact h.of_unchanged (perform_map_of hl _) (perform_map_of hk _)
    · rw [hrange] at hrange'
      cases hrange'
  · rcases h.right.compact (h.isClosed ▸ hopen) first last with
      ⟨e', hrange', -⟩ | ⟨-, k', hk, hright⟩
    · rw [hrange] at hrange'
      cases hrange'
    · exact h.of_trims (perform_map_of hl _) (perform_map_of hk _) hleft hright

theorem close (h : Alike l k ps) : AnswersAlike .close l k := by
  obtain ⟨l', hl, hleft, hclosed, hlast⟩ := h.left.close
  obtain ⟨k', hk, hright, hclosed', hlast'⟩ := h.right.close
  exact h.of_both (perform_map_of hl _) (perform_map_of hk _) hleft hright
    (by rw [hlast, hlast', h.lastAppended]) (by rw [hclosed, hclosed'])

/-- Alike logs answer a call alike, and stay alike. -/
theorem answer (h : Alike l k ps) {c : LogCall} (hc : c.Encodable) : AnswersAlike c l k := by
  by_cases hclose : c = .close
  · subst hclose
    exact h.close
  cases hopen : l.isClosed with
  | true =>
    obtain ⟨hl, hr⟩ := answer_closed hopen hclose
    obtain ⟨hk, hr'⟩ := answer_closed (h.isClosed ▸ hopen) hclose
    rw [← h.name, ← h.view_eq] at hr'
    exact h.of_unchanged (Prod.ext hr hl) (Prod.ext hr' hk)
  | false =>
    have hopen' : k.isClosed = false := h.isClosed ▸ hopen
    cases c with
    | append added => exact h.append hopen hc
    | removeFirst count frontier =>
      obtain ⟨l', hl, hleft⟩ := h.left.removeBelow hopen count frontier
      obtain ⟨k', hk, hright⟩ := h.right.removeBelow hopen' count frontier
      exact h.of_trims (perform_map_of hl _) (perform_map_of hk _) hleft hright
    | deleteOldest last =>
      obtain ⟨l', hl, hleft⟩ := h.left.deleteOldest hopen last
      obtain ⟨k', hk, hright⟩ := h.right.deleteOldest hopen' last
      exact h.of_trims (perform_map_of hl _) (perform_map_of hk _) hleft hright
    | compact first last => exact h.compact hopen first last
    | readFrom start =>
      have hread : l.readFrom start = k.readFrom start :=
        (h.left.readFrom hopen start).trans (h.right.readFrom hopen' start).symm
      exact h.of_unchanged (answer_readFrom l start) (by rw [answer_readFrom, hread])
    | validate =>
      exact h.of_unchanged (perform_map_of (h.left.validate hopen) _)
        (perform_map_of (h.right.validate hopen') _)
    | close => exact h.close
    | look =>
      have hlook : (PacketLog.answer .look).perform k = (.ok (.view l.view), k) := by
        rw [h.view_eq]
        rfl
      exact h.of_unchanged rfl hlook

theorem answers (h : Alike l k ps) {calls : List LogCall} (hcalls : ∀ c ∈ calls, c.Encodable) :
    l.answers calls = k.answers calls := by
  induction calls generalizing l k ps with
  | nil => rfl
  | cons c calls ih =>
    obtain ⟨hanswer, qs, hafter⟩ := h.answer (hcalls c (by simp))
    rw [PacketLog.answers, PacketLog.answers, hanswer,
      ih hafter fun c hc => hcalls c (by simp [hc])]

end Alike

end PacketLog

end GroupReplication
