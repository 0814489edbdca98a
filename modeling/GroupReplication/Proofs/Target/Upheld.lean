/-
Statements that packets of some kind uphold, on a copy in memory. Whatever packets of that kind a channel is
sent, it works only on such packets: on the next ones, on the ones that it held back, and again on those
that come again behind the confirmed key.
-/
import Mathlib.Logic.Function.Basic
import GroupReplication.Proofs.Target.Consumed
import GroupReplication.Proofs.Target.Session

namespace GroupReplication

open GroupReplication.Action

namespace TargetChannel

/-- All that was received is confirmed. -/
structure Settled (c : TargetChannel) : Prop where
  bulk : c.bulk = none
  last : c.lastReceived = c.lastConfirmed

/-- All that was received is confirmed but the packets of one bulk, which came last. -/
def HoldsBack (c : TargetChannel) : Prop :=
  ∃ id held, c.bulk = some ⟨id, held⟩ ∧ held ≠ [] ∧ (∀ p ∈ held, p.bulk = some id) ∧
    held.map (·.key) = List.range' (c.lastConfirmed + 1) held.length ∧
    c.lastReceived = c.lastConfirmed + held.length

/-- What is held back comes from some log, and nothing is while the channel is not active. -/
structure Exact (c : TargetChannel) : Prop where
  received : ∃ log : Nat → Packet, (∀ k, (log k).key = k) ∧ Received log c
  idle : c.state ≠ .active → c.bulk = none

variable {c c' : TargetChannel}

theorem settled_fresh (group source : String) (settings : ConflictSettings) :
    (fresh group source settings).Settled := ⟨rfl, rfl⟩

theorem settled_disconnected (c : TargetChannel) : c.disconnected.Settled := ⟨rfl, rfl⟩

theorem Settled.received (h : c.Settled) (log : Nat → Packet) : Received log c := .all h.bulk h.last

/-- A log of packets that say nothing but their key. -/
theorem Settled.exact (h : c.Settled) : c.Exact :=
  ⟨⟨fun k => ⟨k, 1, false, false, .batch []⟩, fun _ => rfl, h.received _⟩, fun _ => h.bulk⟩

theorem Exact.settled (h : c.Exact) (hbulk : c.bulk = none) : c.Settled := by
  obtain ⟨log, -, hreceived⟩ := h.received
  cases hreceived with
  | all hbulk hlast => exact ⟨hbulk, hlast⟩
  | holdingBack hheld =>
    rw [hbulk] at hheld
    cases hheld

theorem Exact.settled_or_holdsBack (h : c.Exact) : c.Settled ∨ c.HoldsBack := by
  obtain ⟨log, hlog, hreceived⟩ := h.received
  cases hreceived with
  | all hbulk hlast => exact .inl ⟨hbulk, hlast⟩
  | @holdingBack id more hheld hlast hofBulk =>
    refine .inr ⟨id, _, hheld, by simp, fun p hp => ?_, ?_, ?_⟩
    · obtain ⟨k, hk, rfl⟩ := List.mem_map.1 hp
      rw [List.mem_range'_1] at hk
      exact hofBulk k (by omega) (by omega)
    · rw [List.map_map, List.length_map, List.length_range',
        show (fun p : Packet => p.key) ∘ log = fun k => k from funext hlog, List.map_id']
    · rw [List.length_map, List.length_range']
      exact hlast

theorem Exact.congr (h : c.Exact) (hstate : c'.state = c.state) (hbulk : c'.bulk = c.bulk)
    (hlast : c'.lastReceived = c.lastReceived) (hconfirmed : c'.lastConfirmed = c.lastConfirmed) :
    c'.Exact := by
  obtain ⟨log, hlog, hreceived⟩ := h.received
  exact ⟨⟨log, hlog, hreceived.congr hbulk hlast hconfirmed⟩, fun hidle => by
    rw [hbulk]
    exact h.idle (hstate ▸ hidle)⟩

end TargetChannel

/-- Only the packets that were received say which log they come from. -/
theorem Received.congr_log {log log' : Nat → Packet} {c : TargetChannel} (h : Received log c)
    (hsame : ∀ k, k ≤ c.lastReceived → log' k = log k) : Received log' c := by
  cases h with
  | all hbulk hlast => exact .all hbulk hlast
  | @holdingBack id more hheld hlast hofBulk =>
    refine @Received.holdingBack log' c id more (hheld.trans ?_) hlast fun k hlt hle => ?_
    · congr 2
      refine List.map_congr_left fun k hk => ?_
      rw [List.mem_range'_1] at hk
      exact (hsame k (by omega)).symm
    · rw [hsame k (by omega)]
      exact hofBulk k hlt hle

/-- Everything that is held back is of this kind. -/
def TargetChannel.Holds (good : Packet → Prop) (c : TargetChannel) : Prop :=
  ∀ bulk, c.bulk = some bulk → ∀ p ∈ bulk.packets, good p

section

variable {log : Nat → Packet} {good good' : Packet → Prop} {c c' : TargetChannel}

theorem TargetChannel.Settled.holds (h : c.Settled) (good : Packet → Prop) : c.Holds good :=
  fun bulk hbulk => by
    rw [h.bulk] at hbulk
    cases hbulk

theorem TargetChannel.Holds.congr (h : c.Holds good) (hbulk : c'.bulk = c.bulk) : c'.Holds good :=
  fun bulk hsome => h bulk (hbulk ▸ hsome)

theorem TargetChannel.Holds.mono (h : c.Holds good) (hgood : ∀ p, good p → good' p) : c.Holds good' :=
  fun bulk hbulk p hp => hgood p (h bulk hbulk p hp)

theorem Received.holds (h : Received log c)
    (hgood : ∀ k, c.lastConfirmed < k → k ≤ c.lastReceived → good (log k)) : c.Holds good := by
  intro bulk hbulk p hp
  cases h with
  | all hnone =>
    rw [hnone] at hbulk
    cases hbulk
  | holdingBack hheld hlast =>
    rw [hheld] at hbulk
    cases hbulk
    obtain ⟨k, hk, rfl⟩ := List.mem_map.1 hp
    rw [List.mem_range'_1] at hk
    exact hgood k (by omega) (by omega)

theorem Received.held (h : Received log c) (hheld : c.Holds good) {k : Nat} (hlt : c.lastConfirmed < k)
    (hle : k ≤ c.lastReceived) : good (log k) := by
  cases h with
  | all _ hlast => omega
  | holdingBack hbulk hlast =>
    refine hheld _ hbulk _ (List.mem_map.2 ⟨k, ?_, rfl⟩)
    rw [List.mem_range'_1]
    omega

end

/-- A statement about the work on all packets up to a key. A next packet of this kind takes it one key
further; if packets come again, it stays where it is by those of them that are applied. -/
structure Upheld (settings : ConflictSettings) (good : Packet → Prop) (again : Prop)
    (Q : Nat → Work Replica → Prop) : Prop where
  next : ∀ {key w w' p}, good p → p.key = key + 1 → Q key w →
    Applies Replica.applier settings p w (.ok ()) w' → Q (key + 1) w'
  again : again → ∀ {key w w' p}, good p → p.key ≤ key → p.payload.isPhase = false → Q key w →
    Applies Replica.applier settings p w (.ok ()) w' → Q key w'

/-- The channel is exact, holds back packets of this kind, and the statement holds of what it confirmed. -/
structure Receiver.Meets (settings : ConflictSettings) (good : Packet → Prop)
    (Q : Nat → Work Replica → Prop) (r : Receiver Replica) : Prop where
  settings : r.channel.settings = settings
  exact : r.channel.Exact
  held : r.channel.Holds good
  tells : Q r.channel.lastConfirmed r.work

variable {settings : ConflictSettings} {good : Packet → Prop} {again : Prop}
  {Q : Nat → Work Replica → Prop} {r : Receiver Replica}

/-- Of a log that has packets of this kind between two keys, the statement goes from one to the other. -/
theorem Upheld.progress (hQ : Upheld settings good again Q) {log : Nat → Packet}
    (hlog : ∀ k, (log k).key = k) {low high : Nat}
    (hgood : ∀ k, low < k → k ≤ high → good (log k)) :
    Progress Replica.applier settings log fun key w => low ≤ key ∧ (key ≤ high → Q key w) where
  next {key w w'} h happlies := by
    obtain ⟨hlow, htells⟩ := h
    exact ⟨by omega, fun hhigh =>
      hQ.next (hgood (key + 1) (by omega) hhigh) (hlog _) (htells (by omega)) happlies⟩
  broken _ happlies := absurd happlies.canFail Replica.not_canFail
  back hcan := absurd hcan Replica.not_canFail

namespace Receiver

theorem Meets.receiveNext (hQ : Upheld settings good again Q) (h : r.Meets settings good Q)
    (hactive : r.channel.state = .active) {p : Packet} (hp : good p)
    (hkey : p.key = r.channel.lastReceived + 1) :
    ∃ r', (receiveNext Replica.applier p).perform r = (.ok (), r') ∧
      r.channel.Advances r'.channel ∧ r'.Meets settings good Q ∧ r'.channel.lastReceived = p.key := by
  obtain ⟨log, hlog, hreceived⟩ := h.exact.received
  -- the log is changed to have the packet that comes next
  have hlog' : ∀ k, (Function.update log p.key p k).key = k := by
    intro k
    by_cases hk : k = p.key
    · rw [hk, Function.update_self]
    · rw [Function.update_of_ne hk, hlog]
  have hreceived' : Received (Function.update log p.key p) r.channel :=
    hreceived.congr_log fun k hk => Function.update_of_ne (by omega) p log
  have hgood : ∀ k, r.channel.lastConfirmed < k → k ≤ p.key →
      good (Function.update log p.key p k) := by
    intro k hlt hle
    by_cases hk : k = p.key
    · rw [hk, Function.update_self]
      exact hp
    · exact hreceived'.held h.held hlt (by omega)
  obtain ⟨result, r', hdone, hadvances, ⟨-, htells⟩, htook, hfailed⟩ :=
    receiveNext_spec (hQ.progress hlog' hgood) hlog' h.settings ⟨Nat.le_refl _, fun _ => h.tells⟩
      hreceived'
  rw [← hkey, Function.update_self] at hdone
  cases result with
  | error e => exact absurd (hfailed e rfl) Replica.not_canFail
  | ok u =>
    obtain ⟨hreceived'', hlast⟩ := htook rfl
    have hconfirms := hadvances.confirms
    have hle := hreceived''.lastConfirmed_le
    refine ⟨r', hdone, hadvances, ⟨hadvances.settings.trans h.settings, ⟨⟨_, hlog', hreceived''⟩,
      fun hidle => absurd (hadvances.state.trans hactive) hidle⟩, ?_, htells (by omega)⟩, by omega⟩
    exact hreceived''.holds fun k hlt hk => hgood k (by omega) (by omega)

/-- A packet that comes again is passed over, unless packets can be applied again. -/
theorem Meets.replay (hQ : Upheld settings good again Q) (h : r.Meets settings good Q)
    {p : Packet} (hp : good p) (hagain : again ∨ r.channel.lastConfirmed < p.key)
    (hkey : p.key ≤ r.channel.lastReceived) :
    ∃ r', (replay Replica.applier p).perform r = (.ok (), r') ∧ r.channel.Advances r'.channel ∧
      r'.Meets settings good Q ∧ r'.channel.lastConfirmed = r.channel.lastConfirmed := by
  obtain ⟨log, hlog, hreceived⟩ := h.exact.received
  rw [perform_replay hlog hreceived hkey]
  split
  · rename_i happlied
    have hcan : again := hagain.resolve_right (by omega)
    obtain ⟨result, stats, w, happly, happlies⟩ := applyPacket_spec Replica.applier p r.countedAgain
    rw [show r.countedAgain.channel.settings = settings from h.settings] at happlies
    cases result with
    | error e => exact absurd happlies.canFail Replica.not_canFail
    | ok u =>
      exact ⟨_, happly, ⟨rfl, rfl, rfl, rfl, Nat.le_refl _⟩, ⟨h.settings, h.exact.congr rfl rfl rfl rfl,
        h.held.congr rfl, hQ.again hcan hp happlied.1 happlied.2 h.tells happlies⟩, rfl⟩
  · exact ⟨_, rfl, ⟨rfl, rfl, rfl, rfl, Nat.le_refl _⟩,
      ⟨h.settings, h.exact.congr rfl rfl rfl rfl, h.held.congr rfl, h.tells⟩, rfl⟩

theorem Meets.consume (hQ : Upheld settings good again Q) (h : r.Meets settings good Q) {p : Packet}
    (hp : good p) (hagain : again ∨ r.channel.lastConfirmed < p.key) :
    ∃ result r', (consume Replica.applier p).perform r = (result, r') ∧
      r.channel.Advances r'.channel ∧ r'.Meets settings good Q ∧
      (r.channel.lastConfirmed < p.key → r'.channel.lastConfirmed ≤ p.key) := by
  by_cases htakes : r.channel.Takes p
  · have hreached := htakes.reached
    rw [perform_consume_of_takes htakes]
    by_cases hbehind : p.key < r.channel.lastReceived + 1
    · obtain ⟨r', hdone, hadvances, hmeets, hsame⟩ := h.replay hQ hp hagain (by omega)
      rw [if_pos hbehind, hdone]
      exact ⟨_, r', rfl, hadvances, hmeets, fun hlt => by omega⟩
    · obtain ⟨r', hdone, hadvances, hmeets, hlast⟩ := h.receiveNext hQ htakes.active hp (by omega)
      obtain ⟨log, -, hreceived⟩ := hmeets.exact.received
      rw [if_neg hbehind, hdone]
      exact ⟨_, r', rfl, hadvances, hmeets, fun _ => hlast ▸ hreceived.lastConfirmed_le⟩
  · obtain ⟨e, he⟩ := perform_consume_refused (A := Replica.applier) htakes
    exact ⟨_, r, he, .refl _, h, Nat.le_of_lt⟩

/-- Packets of this kind uphold the statement, however far the channel gets with them. Unless packets can be
applied again, they have to come in the order of their keys, behind the confirmed one. -/
theorem Meets.consumeBatch (hQ : Upheld settings good again Q) (h : r.Meets settings good Q)
    {ps : List Packet} (hps : ∀ p ∈ ps, good p)
    (hagain : again ∨ (r.channel.lastConfirmed :: ps.map (·.key)).Pairwise (· < ·)) :
    ∃ result r', (consumeBatch Replica.applier ps).perform r = (result, r') ∧
      r.channel.Advances r'.channel ∧ r'.Meets settings good Q := by
  induction ps generalizing r with
  | nil => exact ⟨_, r, rfl, .refl _, h⟩
  | cons p ps ih =>
    have hfirst : again ∨ r.channel.lastConfirmed < p.key :=
      hagain.imp_right fun hsorted => List.rel_of_pairwise_cons hsorted (List.mem_cons_self ..)
    obtain ⟨result, r', hdone, hadvances, hmeets, hbelow⟩ :=
      h.consume hQ (hps p (List.mem_cons_self ..)) hfirst
    rw [perform_consumeBatch_cons, hdone]
    cases result with
    | error e => exact ⟨_, r', rfl, hadvances, hmeets⟩
    | ok key =>
      have hrest : again ∨ (r'.channel.lastConfirmed :: ps.map (·.key)).Pairwise (· < ·) := by
        refine hagain.imp_right fun hsorted => ?_
        have htail := List.Pairwise.of_cons hsorted
        have hle := hbelow (List.rel_of_pairwise_cons hsorted (List.mem_cons_self ..))
        refine List.pairwise_cons.2 ⟨fun k hk => ?_, htail.of_cons⟩
        exact Nat.lt_of_le_of_lt hle (List.rel_of_pairwise_cons htail hk)
      obtain ⟨result, r'', hdone', hadvances', hmeets'⟩ :=
        ih hmeets (fun q hq => hps q (List.mem_cons_of_mem _ hq)) hrest
      exact ⟨result, r'', hdone', hadvances.trans hadvances', hmeets'⟩

end Receiver

end GroupReplication
