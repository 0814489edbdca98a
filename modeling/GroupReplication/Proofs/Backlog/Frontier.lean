/-
What may leave the log of a backlog. A channel that does not have to start over finds all that it has
not confirmed in the log (`Guards`); under the policy to reject packets so does every channel. Only
an add can break this for a channel, and it tells the channel so.
-/
import GroupReplication.Proofs.Backlog.Deliveries

namespace GroupReplication

open Packet Log

/-- Removing packets that are confirmed up to `last` takes nothing behind `last`. -/
theorem Packet.KeyedFrom.le_of_confirmed {key last n : Nat} {ps : List Packet} (h : KeyedFrom key ps)
    (hkey : key ≤ last + 1) (hconfirmed : ∀ p ∈ ps.take n, p.key ≤ last) :
    key + ps.length ≤ last + 1 + (ps.drop n).length := by
  rw [List.length_drop]
  cases hlast : (ps.take n).getLast? with
  | none =>
    have hnone := congrArg List.length (List.getLast?_eq_none_iff.1 hlast)
    rw [List.length_take, List.length_nil] at hnone
    omega
  | some p =>
    have hmem := List.mem_of_getLast? hlast
    have hle := hconfirmed p hmem
    have hend := (h.take n).getLast? (List.ne_nil_of_mem hmem)
    rw [hlast, Option.map_some, Option.some.injEq, List.length_take] at hend
    have hpos := List.length_pos_of_mem hmem
    rw [List.length_take] at hpos
    omega

namespace Backlog

/-- The log, which holds `ps`, begins no later than behind what any channel has confirmed, unless the
channel has to start over. -/
structure Guards (b : Backlog) (ps : List Packet) : Prop where
  next : b.nextKey = b.log.nextKey
  covers : ∀ target c, b.channel? target = some c →
    c.resyncRequired = false ∨ b.settings.fullPolicy = .reject →
      b.nextKey ≤ c.lastConfirmed + 1 + ps.length

namespace Guards

variable {b b' : Backlog} {ps : List Packet} {op : Operation}

theorem withChannel (h : b.Guards ps) {target : String} {c : SourceChannel}
    (hc : c.resyncRequired = false ∨ b.settings.fullPolicy = .reject →
      b.nextKey ≤ c.lastConfirmed + 1 + ps.length) : (b.withChannel target c).Guards ps where
  next := h.next
  covers other c' hc' hkept := by
    by_cases hother : other = target
    · subst hother
      rw [channel?_withChannel_self] at hc'
      cases hc'
      exact hc hkept
    · rw [channel?_withChannel_other hother] at hc'
      exact h.covers other c' hc' hkept

/-- A channel that is still guarded after others were taken from the log. -/
theorem drop (h : b.Guards ps) (hholds : b.log.Holds ps) {n last : Nat}
    (hcovers : b.nextKey ≤ last + 1 + ps.length) (hconfirmed : ∀ p ∈ ps.take n, p.key ≤ last) :
    b.nextKey ≤ last + 1 + (ps.drop n).length := by
  have hkeyed := hholds.keyed
  have hlength := hholds.length_le
  rw [← h.next] at hkeyed hlength
  have := hkeyed.le_of_confirmed (n := n) (by omega) hconfirmed
  omega

/-- Discarding packets leaves a channel guarded that had confirmed them, and tells the others. -/
theorem discarded (h : b.Guards ps) (hholds : b.log.Holds ps) {n : Nat} {log : PacketLog}
    (hto : b.log.TrimsTo (ps.drop n) log) (hspared : b.settings.fullPolicy = .reject → n = 0) :
    (b.discarded (ps.take n) log).Guards (ps.drop n) where
  next := h.next.trans hto.nextKey.symm
  covers target c' hc' hkept := by
    rw [channel?_discarded] at hc'
    obtain ⟨c, hc, rfl⟩ := Option.map_eq_some_iff.1 hc'
    by_cases hconfirmed : ∀ p ∈ ps.take n, p.key ≤ c.lastConfirmed
    · rw [SourceChannel.afterDiscard_of_confirmed hconfirmed] at hkept ⊢
      exact h.drop hholds (h.covers target c hc hkept) hconfirmed
    · simp only [Classical.not_forall, Nat.not_le] at hconfirmed
      obtain ⟨p, hp, hlost⟩ := hconfirmed
      rcases hkept with hsynced | hreject
      · rw [SourceChannel.resyncRequired_afterDiscard hp hlost] at hsynced
        cases hsynced
      · rw [hspared hreject] at hp
        cases hp

/-- A packet that was added is not confirmed, but in the log. -/
theorem extended (h : b.Guards ps) {p : Packet} (hp : p.key = b.nextKey) {log : PacketLog}
    (hlast : log.lastAppended = some p.key) : (b.extended p log).Guards (ps ++ [p]) where
  next := by
    show p.key + 1 = log.nextKey
    rw [PacketLog.nextKey, hlast]
    rfl
  covers target c' hc' hkept := by
    rw [channel?_extended] at hc'
    obtain ⟨c, hc, rfl⟩ := Option.map_eq_some_iff.1 hc'
    have hsame : (c.afterAdd b.now p).lastConfirmed = c.lastConfirmed ∧
        (c.afterAdd b.now p).resyncRequired = c.resyncRequired := by
      simp only [SourceChannel.afterAdd]
      split <;> exact ⟨rfl, rfl⟩
    rw [hsame.2] at hkept
    have hcovers := h.covers target c hc hkept
    show p.key + 1 ≤ _
    rw [hsame.1, List.length_append, List.length_singleton]
    omega

/-- Every operation leaves a log that guards the channels. -/
theorem after (h : b.Guards ps) (hholds : b.log.Holds ps) (hbecomes : b.Becomes ps op b') :
    ∃ ps', b'.log.Holds ps' ∧ b'.Guards ps' := by
  cases hbecomes with
  | idle hlog hnext hsettings hchannels =>
    refine ⟨ps, hlog ▸ hholds, hnext.trans (hlog ▸ h.next), fun target c hc hkept => ?_⟩
    rw [channel?, hchannels] at hc
    rw [hsettings] at hkept
    rw [hnext]
    exact h.covers target c hc hkept
  | touched hfound hshifts =>
    refine ⟨ps, hholds, h.withChannel fun hkept => ?_⟩
    have hbefore := h.covers _ _ hfound <| hkept.imp_left fun hsynced =>
      Bool.eq_false_iff.2 fun hlost => by
        rw [hshifts.lost hlost] at hsynced
        cases hsynced
    have hconfirmed := hshifts.confirmed
    omega
  | @welcomed target request response c weight _ hagreed hopen =>
    refine ⟨ps, hholds, h.withChannel fun _ => ?_⟩
    have hearliest := (negotiate_bounds hagreed).1
    have hkept := hholds.earliest hopen
    rw [PacketLog.earliest, ← h.next] at hkept
    rw [show b.retained.earliest = _ from hkept] at hearliest
    show b.nextKey ≤ response.startKey - 1 + 1 + ps.length
    omega
  | handed _ hfound _ hsynced hhands =>
    refine ⟨ps, hholds, h.withChannel fun _ => ?_⟩
    have hbefore := h.covers _ _ hfound (.inl hsynced)
    cases hhands with
    | read | cut => exact hbefore
  | @detached target n log hto hlast =>
    refine ⟨ps.drop n, hto.holds, h.next.trans hto.nextKey.symm, fun other c hc hkept => ?_⟩
    by_cases hother : other = target
    · subst hother
      simp [channel?] at hc
    · have hstill : b.channels.erase target ≠ [] := fun hnone => by
        rw [channel?, hnone] at hc
        cases hc
      rw [channel?, Table.get?_erase_other _ hother] at hc
      rw [hlast hstill]
      exact h.covers other c hc hkept
  | compacted hto hconfirmed =>
    refine ⟨_, hto.holds, h.next.trans hto.nextKey.symm, fun target c hc hkept => ?_⟩
    exact h.drop hholds (h.covers target c hc hkept) fun p hp =>
      hconfirmed p hp c (Table.mem_values_of_get? hc)
  | refused hto _ _ hspared => exact ⟨_, hto.holds, h.discarded hholds hto hspared⟩
  | added _ hto hholds' hlast _ _ _ _ hspared =>
    exact ⟨_, hholds', (h.discarded hholds hto hspared).extended rfl hlast⟩
  | @closed log _ hholds' _ hlast =>
    refine ⟨ps, hholds', ?_, h.covers⟩
    show b.nextKey = log.nextKey
    rw [PacketLog.nextKey, hlast]
    exact h.next

end Guards

/-- In every run the log guards the channels. -/
theorem guards_run {log : PacketLog} {kept : List Packet} (hholds : log.Holds kept)
    (membership : Membership) (settings : BacklogSettings) (ops : List Operation) :
    let b := ((Backlog.ofLog membership settings log).run ops).backlog
    b.nextKey < 2 ^ 64 → ∃ ps, b.log.Holds ps ∧ b.Guards ps := by
  suffices hsteps : ∀ r : Run, (∃ ps, r.backlog.log.Holds ps ∧ r.backlog.Guards ps) →
      (r.steps ops).backlog.nextKey < 2 ^ 64 →
      ∃ ps, (r.steps ops).backlog.log.Holds ps ∧ (r.steps ops).backlog.Guards ps from
    hsteps _ ⟨kept, hholds, rfl, fun _ _ hc => by cases hc⟩
  induction ops with
  | nil => exact fun _ h _ => h
  | cons op ops ih =>
    rintro r ⟨ps, hps, hguards⟩ hkeys
    have hkey : r.backlog.nextKey < 2 ^ 64 :=
      Nat.lt_of_le_of_lt (r.nextKey_le_steps (op :: ops)) hkeys
    exact ih (r.step op) (hguards.after hps (becomes_after hps hkey op)) hkeys

/-- Over any log that came about by its own operations, and at any point of a run in which the log is
open: all that a channel has not confirmed is in the log, unless the channel has to start over; a
compaction only removes what every channel has confirmed; and if any other operation takes from a
channel that stays what it has not confirmed, then this is an add, which discards packets as the
policy says, and the channel has to start over. -/
theorem compaction_frontier {log : PacketLog} (hlog : log.Reachable) (membership : Membership)
    (settings : BacklogSettings) (ops : List Operation) :
    let b := ((Backlog.ofLog membership settings log).run ops).backlog
    b.nextKey < 2 ^ 64 → b.log.isClosed = false →
    (∀ target c, b.channel? target = some c → c.resyncRequired = false →
      ∀ key, c.lastConfirmed < key → key < b.nextKey → ∃ p ∈ b.log.packets, p.key = key) ∧
    (∀ limit, ∀ p ∈ b.log.packets, p ∉ (Operation.after b (.compact limit)).log.packets →
      ∀ target c, b.channel? target = some c → p.key ≤ c.lastConfirmed) ∧
    ∀ op target, Turn.Loses target ⟨b, op⟩ → (op.after b).log.isClosed = false →
      ∀ c, (op.after b).channel? target = some c →
        (∃ payload transient fromGateway, op = .add payload transient fromGateway) ∧
        b.settings.fullPolicy = .discardOldest ∧ c.resyncRequired = true := by
  intro b hkeys hopen
  obtain ⟨kept, hkept, -⟩ := hlog.holds
  have hrun : ∃ ps, b.log.Holds ps ∧ b.Guards ps := guards_run hkept membership settings ops hkeys
  obtain ⟨ps, hholds, hguards⟩ := hrun
  refine ⟨fun target c hc hsynced key hlost hissued => ?_, fun limit p hp hgone target c hc => ?_,
    fun op target hloses hopen' c' hc' => ?_⟩
  · have hcovers := hguards.covers target c hc (.inl hsynced)
    have hkeyed := hholds.keyed
    have hlength := hholds.length_le
    rw [← hguards.next] at hkeyed hlength
    rw [hholds.packets hopen]
    exact hkeyed.exists_mem (by omega) (by omega)
  · obtain ⟨r, n, log', hok, hto, hconfirmed⟩ := compact_spec hholds limit
    rw [show (Operation.after b (.compact limit)).log = log' from congrArg (·.2.log) hok,
      hto.holds.packets (hto.isClosed.trans hopen)] at hgone
    rw [hholds.packets hopen] at hp
    exact hconfirmed p (mem_take_of_not_mem_drop hp hgone) c (Table.mem_values_of_get? hc)
  · obtain ⟨c, hc, p, hp, hlost, hgone⟩ := hloses
    have hclose : op ≠ .close := by
      rintro rfl
      obtain ⟨log', hok, -, hclosed, -⟩ := close_spec hholds
      rw [show (Operation.after b .close).log = log' from congrArg (·.2.log) hok, hclosed] at hopen'
      cases hopen'
    rcases (becomes_after hholds hkeys op).takes hholds hclose hp hgone with
      hnobody | hconfirmed | ⟨hasked, hpolicy, hdiscarded⟩
    · rw [channel?, hnobody] at hc'
      cases hc'
    · have := hconfirmed c (Table.mem_values_of_get? hc)
      omega
    · exact ⟨hasked, hpolicy, hdiscarded target c hc hlost c' hc'⟩

/-- A backlog with room for one packet, one target and one packet for it. -/
def crowded : Run :=
  (ofLog (.openTo "orders") ⟨1, .discardOldest, 10, 1000, 1⟩
    (.memory (.empty "orders" none))).run
    [.handshake "backup" ⟨true, 0, none⟩, .add (.entry (.write ⟨"Order", "a", 1, [], none⟩)) false false]

/-- The crowded backlog has its packet, which is not confirmed, and tells the channel when the next
packet takes its place. -/
theorem compaction_frontier_crowded :
    let op : Operation := .add (.entry (.write ⟨"Order", "b", 1, [], none⟩)) false false
    (∃ p ∈ crowded.backlog.log.packets, p.key = 1) ∧
      ∃ c, (op.after crowded.backlog).channel? "backup" = some c ∧ c.resyncRequired = true := by
  intro op
  have hkeys : crowded.backlog.nextKey < 2 ^ 64 := by decide +kernel
  obtain ⟨hkept, -, hloses⟩ := compaction_frontier (.memory "orders" none) (.openTo "orders")
    ⟨1, .discardOldest, 10, 1000, 1⟩ _ hkeys rfl
  have hchannel : crowded.backlog.channel? "backup"
      = some ((crowded.backlog.channel? "backup").get (by decide +kernel)) := (Option.some_get _).symm
  have hafter : ((op.after crowded.backlog).channel? "backup").isSome = true := by decide +kernel
  have hlost : Turn.Loses "backup" ⟨crowded.backlog, op⟩ :=
    ⟨_, hchannel, crowded.backlog.log.packets.head (by decide +kernel), List.head_mem _,
      by decide +kernel, by decide +kernel⟩
  refine ⟨hkept "backup" _ hchannel (by decide +kernel) 1 (by decide +kernel) (by decide +kernel), _,
    (Option.some_get hafter).symm, ?_⟩
  exact (hloses op "backup" hlost (by decide +kernel) _ (Option.some_get hafter).symm).2.2

end Backlog

end GroupReplication
