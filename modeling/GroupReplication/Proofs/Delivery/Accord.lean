/-
What the two ends of a delivery have in common at any time: the backlog fits what it logged and
handed out, the target mirrors the log, and never stands behind the place that its source speaks of.
Each thing that happens to one of the ends preserves this.
-/
import GroupReplication.Proofs.Backlog.Handout
import GroupReplication.Proofs.Delivery.Exchange

namespace GroupReplication

open Packet GroupReplication.Action Log

/-- One target of a backlog: the settings of both ends, the target's copy before anything reached it,
and the packet under each key. -/
structure Site where
  settings : BacklogSettings
  conflicts : ConflictSettings
  source : String
  target : String
  initial : Replica
  log : Nat → Packet
  room : 1 ≤ settings.maxBatchSize
  clustered : conflicts.targetKind = .clustered
  keyed : ∀ key, (log key).key = key

/-- Where the epochs of all channels started and what was handed out in them, and the channel that
the target has. -/
structure Account where
  start? : String → Option Nat
  delivered : String → List Packet
  channel? : Option TargetChannel

namespace Account

/-- The key of the packet that a channel is handed next. -/
def next (target : String) (a : Account) : Nat :=
  (a.start? target).getD 0 + (a.delivered target).length

def after (t : Turn) (a : Account) : Account :=
  { a with start? := startAfter a.start? t, delivered := deliveredAfter a.delivered t }

variable {a : Account} {t : Turn} {target : String}

/-- A channel goes on behind what it was handed. -/
theorem next_after (hstart : t.start? target = none) :
    (a.after t).next target = a.next target + ((t.batch? target).getD []).length := by
  simp only [next, after, startAfter, deliveredAfter, hstart, Option.none_or, Option.isSome_none,
    Bool.false_eq_true, if_false, List.length_append]
  omega

/-- A handshake puts its channel at the start of a new epoch. -/
theorem next_started {start : Nat} (hstart : t.start? target = some start) :
    (a.after t).next target = start := by
  simp only [next, after, startAfter, deliveredAfter, hstart, Option.some_or, Option.isSome_some,
    if_true, Option.getD_some, List.length_nil, Nat.add_zero]

end Account

/-- The target's end of a channel. -/
def Site.channel (site : Site) (a : Account) (w : Wire Replica) : TargetChannel :=
  w.channel site.source a.channel?

/-- The two ends of a delivery fit each other. -/
structure Accord (site : Site) (history : List Packet) (d : Delivery (Wire Replica)) (a : Account) :
    Prop where
  source : d.worker.source = site.source
  target : d.worker.target = site.target
  coherent : Coherent site.settings d.backlog history a.start? a.delivered
  listed : ∀ p ∈ history, p = site.log p.key ∧ p.Fits
  keys : d.backlog.nextKey < 2 ^ 64
  mirrors : d.link.Mirrors site.log site.conflicts site.source site.initial a.channel?
  issued : (site.channel a d.link).lastConfirmed < d.backlog.nextKey
  behind : (site.channel a d.link).state = .active →
    (site.channel a d.link).lastReceived + 1 ≤ a.next site.target
  kept : ∀ start base, d.link.restart? = some (start, base) → d.backlog.nextKey - history.length ≤ start

/-- The target waits for the very packet that comes next. -/
def Meets (site : Site) (d : Delivery (Wire Replica)) (a : Account) : Prop :=
  (site.channel a d.link).state = .active ∧
    (site.channel a d.link).lastReceived + 1 = a.next site.target

/-- As long as the channel stands and can be polled, the ends meet. -/
def InTouch (site : Site) (d : Delivery (Wire Replica)) (a : Account) : Prop :=
  d.worker.established = true → ∀ c, d.backlog.channel? site.target = some c → c.state = .active →
    c.resyncRequired = false → Meets site d a

section Accord

variable {site : Site} {history : List Packet} {d : Delivery (Wire Replica)} {a : Account}

theorem InTouch.of_unestablished (h : d.worker.established = false) : InTouch site d a := by
  intro hestablished
  rw [h] at hestablished
  cases hestablished

namespace Accord

theorem worker (h : Accord site history d a) {w : Worker} (hsource : w.source = d.worker.source)
    (htarget : w.target = d.worker.target) : Accord site history { d with worker := w } a :=
  ⟨hsource.trans h.source, htarget.trans h.target, h.coherent, h.listed, h.keys, h.mirrors, h.issued,
    h.behind, h.kept⟩

/-- What does nothing to the target leaves the ends as they were. -/
theorem rests (h : Accord site history d a) {w : Wire Replica} {c?' : Option TargetChannel}
    (hrests : d.link.Rests site.log site.conflicts site.source site.initial a.channel? w c?') :
    Accord site history { d with link := w } { a with channel? := c?' } where
  source := h.source
  target := h.target
  coherent := h.coherent
  listed := h.listed
  keys := h.keys
  mirrors := hrests.mirrors
  issued := Nat.lt_of_le_of_lt (Nat.le_of_eq hrests.confirmed) h.issued
  behind hactive := by
    rcases hrests.quiet with hsame | hquiet
    · have hsame : site.channel { a with channel? := c?' } w = site.channel a d.link := hsame
      simp only [hsame] at hactive ⊢
      exact h.behind hactive
    · exact absurd hactive hquiet
  kept start base hrestart := h.kept start base (hrests.restart.symm.trans hrestart)

/-- The target went on, up to the packet that comes next. -/
theorem goesOn (h : Accord site history d a) {w : Wire Replica} {c?' : Option TargetChannel}
    (hmirrors : w.Mirrors site.log site.conflicts site.source site.initial c?')
    (hnext : (w.channel site.source c?').lastReceived + 1 = a.next site.target)
    (hwithin : a.next site.target ≤ d.backlog.nextKey)
    (hkept : ∀ start base, w.restart? = some (start, base) → d.backlog.nextKey - history.length ≤ start) :
    Accord site history { d with link := w } { a with channel? := c?' } where
  source := h.source
  target := h.target
  coherent := h.coherent
  listed := h.listed
  keys := h.keys
  mirrors := hmirrors
  issued := by
    have hle := hmirrors.received.lastConfirmed_le
    show (w.channel site.source c?').lastConfirmed < d.backlog.nextKey
    omega
  behind _ := Nat.le_of_eq hnext
  kept := hkept

/-- An operation on the backlog keeps the ends together, if it is not a handshake with an active
target. -/
theorem operated (h : Accord site history d a) (op : Operation)
    (hkeys : (op.after d.backlog).nextKey < 2 ^ 64)
    (hlisted : ∀ p, Turn.appended? ⟨d.backlog, op⟩ = some p → p = site.log p.key)
    (hstart : Turn.start? site.target ⟨d.backlog, op⟩ = none ∨
      (site.channel a d.link).state ≠ .active) :
    Accord site (historyAfter history ⟨d.backlog, op⟩) { d with backlog := op.after d.backlog }
      (a.after ⟨d.backlog, op⟩) := by
  obtain ⟨ps, hholds, -⟩ := h.coherent.logged.kept
  have hbecomes := Backlog.becomes_after hholds h.keys op
  have hnext := hbecomes.nextKey
  refine ⟨h.source, h.target, h.coherent.after h.keys site.room op, ?_, hkeys, h.mirrors, ?_, ?_, ?_⟩
  · intro p hp
    rcases List.mem_append.1 hp with hp | hp
    · exact h.listed p hp
    · have happended : Turn.appended? ⟨d.backlog, op⟩ = some p := Option.mem_toList.1 hp
      exact ⟨hlisted p happended, hbecomes.fits h.keys happended⟩
  · show (site.channel a d.link).lastConfirmed < (op.after d.backlog).nextKey
    have := h.issued
    omega
  · intro hactive
    rcases hstart with hstart | hidle
    · have hbehind := h.behind hactive
      show (site.channel a d.link).lastReceived + 1 ≤ (a.after _).next site.target
      rw [Account.next_after hstart]
      omega
    · exact absurd hactive hidle
  · intro start base hrestart
    have hkept := h.kept start base hrestart
    show (op.after d.backlog).nextKey - (historyAfter history ⟨d.backlog, op⟩).length ≤ start
    rw [hnext, historyAfter, List.length_append]
    omega

/-- An operation that logs nothing gives out no key. -/
theorem quiet (h : Accord site history d a) {op : Operation}
    (hnone : Turn.appended? ⟨d.backlog, op⟩ = none)
    (hstart : Turn.start? site.target ⟨d.backlog, op⟩ = none ∨
      (site.channel a d.link).state ≠ .active) :
    Accord site history { d with backlog := op.after d.backlog } (a.after ⟨d.backlog, op⟩) ∧
      (op.after d.backlog).nextKey = d.backlog.nextKey := by
  obtain ⟨ps, hholds, -⟩ := h.coherent.logged.kept
  have hnext := (Backlog.becomes_after hholds h.keys op).nextKey
  rw [hnone, Option.toList_none, List.length_nil, Nat.add_zero] at hnext
  refine ⟨?_, hnext⟩
  have hsame : historyAfter history ⟨d.backlog, op⟩ = history := by
    rw [historyAfter, hnone, Option.toList_none, List.append_nil]
  have hafter := h.operated op (by rw [hnext]; exact h.keys) (by simp [hnone]) hstart
  rwa [hsame] at hafter

/-- What logs, starts and hands out nothing changes nothing between the ends. -/
theorem silent (h : Accord site history d a) {op : Operation}
    (hsilent : Turn.Silent ⟨d.backlog, op⟩) :
    Accord site history { d with backlog := op.after d.backlog } a ∧
      (op.after d.backlog).nextKey = d.backlog.nextKey := by
  have hsame : a.after ⟨d.backlog, op⟩ = a := by
    rw [Account.after, hsilent.starts, hsilent.delivers]
  have hquiet := h.quiet hsilent.appended (.inl (hsilent.start _))
  rwa [hsame] at hquiet

/-- What hands the target nothing, and is not its handshake, leaves the ends in touch. -/
theorem inTouch_operated (h : Accord site history d a) (hin : InTouch site d a) {op : Operation}
    (hstart : Turn.start? site.target ⟨d.backlog, op⟩ = none)
    (hbatch : (Turn.batch? site.target ⟨d.backlog, op⟩).getD [] = []) :
    InTouch site { d with backlog := op.after d.backlog } (a.after ⟨d.backlog, op⟩) := by
  obtain ⟨ps, hholds, -⟩ := h.coherent.logged.kept
  intro hestablished c' hc' hactive hsynced
  obtain ⟨c, hc, hactive, hsynced⟩ := (Backlog.becomes_after hholds h.keys op).pollable hstart hc'
    hactive hsynced
  obtain ⟨hmeets, hnext⟩ := hin hestablished c hc hactive hsynced
  refine ⟨hmeets, ?_⟩
  rw [Account.next_after hstart, hbatch, List.length_nil, Nat.add_zero]
  exact hnext

theorem lastConfirmed_lt (h : Accord site history d a) :
    (d.link.channel site.source a.channel?).lastConfirmed < 2 ^ 64 :=
  Nat.lt_trans h.issued h.keys

end Accord

end Accord

end GroupReplication
