/-
When a channel is told to resync. An add that discards what a channel has not confirmed asks for it,
and only a handshake takes that back. What was lost in an epoch is all that the log no longer has of
what the channel had not confirmed (`Misses`), so the demand stands exactly as long as anything was
lost in the epoch. It is out of date once the target has confirmed what was lost: a batch that was on
its way when its packets were discarded can still be confirmed.
-/
import GroupReplication.Proofs.Backlog.Covered
import GroupReplication.Proofs.Backlog.Handshake

namespace GroupReplication

open Packet Log GroupReplication.Action

namespace Turn

/-- The packets that the turn took from the log before `target` had confirmed them. -/
def lost (target : String) (t : Turn) : List Packet :=
  (t.before.channel? target).elim [] fun c =>
    t.before.log.packets.filter fun p => c.lastConfirmed < p.key ∧ p ∉ t.after.log.packets

/-- The packets that `target` lost in its epoch. -/
def lostSince (target : String) (turns : List Turn) : List Packet :=
  (epoch target turns).flatMap (·.lost target)

theorem lostSince_cons {target : String} {t : Turn} {turns : List Turn} :
    lostSince target (t :: turns) =
      if (t.start? target).isSome then [] else t.lost target ++ lostSince target turns := by
  cases hstart : t.start? target with
  | some start =>
    rw [lostSince, epoch, List.takeWhile_cons_of_neg (by simp [hstart])]
    rfl
  | none =>
    rw [lostSince, epoch, List.takeWhile_cons_of_pos (by simp [hstart]), List.flatMap_cons]
    rfl

end Turn

namespace SourceChannel

/-- `lost` is what the channel was not given the time to confirm: the log, which holds `ps`, has begun
behind it since. -/
structure Misses (lost ps : List Packet) (next : Nat) (c : SourceChannel) : Prop where
  flagged : c.resyncRequired = true ↔ lost ≠ []
  gone : ∀ p ∈ lost, p.key + ps.length < next
  complete : ∀ key, c.lastConfirmed < key → key + ps.length < next → ∃ p ∈ lost, p.key = key

namespace Misses

variable {lost ps : List Packet} {first next : Nat} {c c' : SourceChannel}

/-- Once packets are discarded the channel also misses those of them that it had not confirmed. -/
theorem discards (h : c.Misses lost ps next) (hkeyed : KeyedFrom first ps)
    (hend : first + ps.length = next) (n : Nat) :
    (c.afterDiscard (ps.take n)).Misses
      (ps.filter (fun p => c.lastConfirmed < p.key ∧ p ∉ ps.drop n) ++ lost) (ps.drop n) next := by
  have hparts := congrArg List.length (List.take_append_drop n ps)
  rw [List.length_append] at hparts
  have hremoved : ∀ p ∈ ps, p.key + (ps.drop n).length < next → p ∈ ps.take n := fun p hp hlt =>
    Backlog.mem_take_of_not_mem_drop hp fun hkept => by
      have hbound := ((hkeyed.drop n).bounds hkept).1
      rw [List.length_drop] at hlt
      omega
  have hleft : ∀ p ∈ ps.take n, p.key + (ps.drop n).length < next := fun p hp => by
    have hbound := ((hkeyed.take n).bounds hp).2
    omega
  have hlost : ∀ p, p ∈ ps.filter (fun p => c.lastConfirmed < p.key ∧ p ∉ ps.drop n) ↔
      p ∈ ps.take n ∧ c.lastConfirmed < p.key := fun p => by
    rw [List.mem_filter, decide_eq_true_eq]
    constructor
    · rintro ⟨hp, hahead, hgone⟩
      exact ⟨Backlog.mem_take_of_not_mem_drop hp hgone, hahead⟩
    · rintro ⟨hp, hahead⟩
      refine ⟨List.mem_of_mem_take hp, hahead, fun hkept => ?_⟩
      have hbound := ((hkeyed.drop n).bounds hkept).1
      have hlt := hleft p hp
      rw [List.length_drop] at hlt
      omega
  have hkept := (c.afterDiscard_keeps (ps.take n)).2
  refine ⟨?_, fun p hp => ?_, fun key hahead hlt => ?_⟩
  · by_cases hdone : ∀ p ∈ ps.take n, p.key ≤ c.lastConfirmed
    · have hnone : ps.filter (fun p => c.lastConfirmed < p.key ∧ p ∉ ps.drop n) = [] :=
        List.eq_nil_iff_forall_not_mem.2 fun p hp => by
          have hle := hdone p ((hlost p).1 hp).1
          have hahead := ((hlost p).1 hp).2
          omega
      rw [afterDiscard_of_confirmed hdone, hnone, List.nil_append]
      exact h.flagged
    · simp only [Classical.not_forall, Nat.not_le] at hdone
      obtain ⟨p, hp, hahead⟩ := hdone
      refine ⟨fun _ => ?_, fun _ => resyncRequired_afterDiscard hp hahead⟩
      exact List.ne_nil_of_mem (List.mem_append_left _ ((hlost p).2 ⟨hp, hahead⟩))
  · rcases List.mem_append.1 hp with hp | hp
    · exact hleft p ((hlost p).1 hp).1
    · have hgone := h.gone p hp
      omega
  · rw [hkept] at hahead
    by_cases hbefore : key + ps.length < next
    · obtain ⟨p, hp, hkey⟩ := h.complete key hahead hbefore
      exact ⟨p, List.mem_append_right _ hp, hkey⟩
    · obtain ⟨p, hp, hkey⟩ := hkeyed.exists_mem (k := key) (by omega) (by omega)
      refine ⟨p, List.mem_append_left _ ((hlost p).2 ⟨hremoved p hp ?_, ?_⟩), hkey⟩
      · rw [hkey]
        exact hlt
      · rw [hkey]
        exact hahead

/-- A packet that is added is in the log. -/
theorem adds (h : c.Misses lost ps next) (now : Nat) (p : Packet) :
    (c.afterAdd now p).Misses lost (ps ++ [p]) (next + 1) := by
  have hsame := c.afterAdd_keeps now p
  refine ⟨hsame.resyncRequired ▸ h.flagged, fun q hq => ?_, fun key hahead hlt => ?_⟩
  · have hgone := h.gone q hq
    rw [List.length_append, List.length_singleton]
    omega
  · rw [List.length_append, List.length_singleton] at hlt
    rw [hsame.lastConfirmed] at hahead
    exact h.complete key hahead (by omega)

/-- A channel that goes on as it was, or has confirmed more, misses nothing else. -/
theorem confirms (h : c.Misses lost ps next) (hflagged : c'.resyncRequired = c.resyncRequired)
    (hconfirmed : c.lastConfirmed ≤ c'.lastConfirmed) : c'.Misses lost ps next :=
  ⟨hflagged ▸ h.flagged, h.gone, fun key hahead hlt =>
    h.complete key (Nat.lt_of_le_of_lt hconfirmed hahead) hlt⟩

end Misses

end SourceChannel

namespace Backlog

variable {b : Backlog} {op : Operation} {target : String}

/-- What a channel misses after an operation: nothing in a new epoch, and else what the operation took
as well. -/
theorem Sound.misses (h : b.Sound) {lost ps : List Packet} {next : Nat} {c' : SourceChannel}
    (hfares : b.Fares b.log.packets op target ps next c')
    (hlost : ∀ c, b.channel? target = some c → c.Misses lost b.log.packets b.nextKey) :
    c'.Misses
      (if (Turn.start? target ⟨b, op⟩).isSome then []
        else (b.channel? target).elim [] (fun c =>
          b.log.packets.filter fun p => c.lastConfirmed < p.key ∧ p ∉ ps) ++ lost) ps next := by
  have hkeyed := h.keyed
  have hlength := h.holds.length_le
  rw [← h.solvent.next] at hlength
  have hend := Nat.sub_add_cancel hlength
  have hstays : ∀ c : SourceChannel,
      b.log.packets.filter (fun p => c.lastConfirmed < p.key ∧ p ∉ b.log.packets) = [] := fun c =>
    List.filter_eq_nil_iff.2 fun p hp => by simp [hp]
  cases hfares with
  | @spared _ n hfound hongoing hconfirmed =>
    rw [hongoing, hfound]
    have hdiscards := (hlost _ hfound).discards hkeyed hend n
    rw [SourceChannel.afterDiscard_of_confirmed hconfirmed] at hdiscards
    exact hdiscards
  | @touched c _ hfound hongoing hshifts _ hflagged =>
    rw [hongoing, hfound]
    have hsame : c'.resyncRequired = c.resyncRequired := by
      cases hold : c.resyncRequired with
      | true => exact hshifts.lost hold
      | false =>
        refine Bool.eq_false_iff.2 fun hnew => ?_
        rcases hflagged hnew with hold' | ⟨hactive, hsynced, key, hcursor, hgone⟩
        · rw [hold] at hold'
          cases hold'
        · exact Nat.not_le.2 hgone (h.earliest_le hfound hactive hsynced hcursor)
    show c'.Misses (List.filter _ _ ++ lost) _ _
    rw [hstays, List.nil_append]
    exact (hlost c hfound).confirms hsame hshifts.confirmed
  | @welcomed request response c hagreed _ _ hstarted =>
    have hearliest := (negotiate_bounds hagreed).1
    rw [show b.retained.earliest = b.log.earliest by
      rw [PacketLog.earliest, ← h.solvent.next]; rfl, h.earliest] at hearliest
    rw [hstarted]
    show SourceChannel.Misses [] _ _ _
    refine ⟨iff_of_false Bool.false_ne_true (not_not_intro rfl), fun p hp => absurd hp List.not_mem_nil,
      fun key hahead hlt => ?_⟩
    change response.startKey - 1 < key at hahead
    omega
  | @handed _ c _ _ hfound hongoing _ hsynced hhands =>
    rw [hongoing, hfound]
    show c'.Misses (List.filter _ _ ++ lost) _ _
    rw [hstays, List.nil_append]
    cases hhands with
    | read | cut => exact (hlost c hfound).confirms rfl (Nat.le_refl _)
  | @discarded _ n hfound hongoing =>
    rw [hongoing, hfound]
    exact (hlost _ hfound).discards hkeyed hend n
  | @added c n p hfound hongoing hp =>
    rw [hongoing, hfound]
    have hnew : ∀ q ∈ b.log.packets, (q ∉ b.log.packets.drop n ++ [p] ↔ q ∉ b.log.packets.drop n) :=
      fun q hq => by
        have hbound := (hkeyed.bounds hq).2
        have hne : q ≠ p := fun hsame => by
          rw [hsame, hp] at hbound
          omega
        simp [hne]
    show (SourceChannel.afterAdd b.now p _).Misses (List.filter _ _ ++ lost) _ _
    rw [show b.log.packets.filter (fun q => c.lastConfirmed < q.key ∧ q ∉ b.log.packets.drop n ++ [p])
        = b.log.packets.filter (fun q => c.lastConfirmed < q.key ∧ q ∉ b.log.packets.drop n) from
      List.filter_congr fun q hq => decide_eq_decide.2 (and_congr_right fun _ => hnew q hq)]
    exact ((hlost c hfound).discards hkeyed hend n).adds b.now p

end Backlog

namespace Run

/-- Every channel knows whether anything was lost in its epoch. -/
def Knows (r : Run) : Prop := ∀ target c, r.backlog.channel? target = some c →
  c.Misses (Turn.lostSince target r.turns) r.backlog.log.packets r.backlog.nextKey

theorem knows_step (r : Run) (op : Operation) (h : r.backlog.Sound) (h' : (r.step op).backlog.Sound)
    (hknows : r.Knows) : (r.step op).Knows := by
  intro target c' hc'
  obtain ⟨ps, hmoves⟩ := (Backlog.becomes_after h.holds h.keyLeft op).moves h.holds
  obtain rfl : (r.step op).backlog.log.packets = ps := hmoves.holds.packets h'.isOpen
  have hmisses := h.misses (hmoves.channels target c' hc') (hknows target)
  show c'.Misses (Turn.lostSince target (⟨r.backlog, op⟩ :: r.turns)) _ _
  rw [Turn.lostSince_cons]
  exact hmisses

end Run

namespace Backlog

variable {b : Backlog} {target : String}

/-- A poll asks for a resync exactly when the channel is told to. -/
theorem Sound.poll_demands_iff (h : b.Sound) (force : Bool) (requested earliest : Nat) :
    ((poll target force).perform b).1 = .error (.resumeKeyCompacted requested earliest) ↔
      ∃ c, b.channel? target = some c ∧ c.state = .active ∧ c.resyncRequired = true ∧
        requested = c.lastConfirmed + 1 ∧ earliest = b.log.earliest := by
  constructor
  · intro he
    cases hc : b.channel? target with
    | none =>
      rw [poll, perform_bind_error (perform_channelOf_none hc)] at he
      cases he
    | some c =>
      by_cases hactive : c.state = .active
      · cases hsynced : c.resyncRequired with
        | true =>
          rw [poll_lost hc hactive hsynced force] at he
          cases he
          exact ⟨c, rfl, hactive, hsynced, rfl, rfl⟩
        | false =>
          cases hcursor : c.cursor with
          | catchingUp key =>
            rw [poll_catchingUp hc hactive hsynced hcursor, catchUp_reads h.holds h.isOpen target c
              (h.earliest_le hc hactive hsynced hcursor)] at he
            cases he
          | live =>
            cases hpoll : c.accumulator.poll b.now force with
            | none =>
              rw [poll_nothing hc hactive hsynced hcursor hpoll] at he
              cases he
            | some cut =>
              obtain ⟨batch, accumulator⟩ := cut
              rw [poll_cuts hc hactive hsynced hcursor hpoll] at he
              cases he
      · rw [poll_inactive hc hactive] at he
        cases he
  · rintro ⟨c, hc, hactive, hlost, rfl, rfl⟩
    rw [poll_lost hc hactive hlost]

/-- At any point of a run, over an open log whose keys start at 1 or later (see `Solvent`), a poll asks
a target to resync exactly when its channel is active and has lost packets in its epoch. It names the
key behind what the channel has confirmed and the first that is left. That key is gone, as the demand
says, only if the target has not confirmed all that was lost. -/
theorem resync_demand_exact {log : PacketLog} (hlog : log.Reachable)
    (hnumbered : ∀ p ∈ log.packets, 1 ≤ p.key) (membership : Membership) (settings : BacklogSettings)
    (hmax : settings.maxWeight < 2 ^ 64) (ops : List Operation) (target : String) (force : Bool)
    (requested earliest : Nat) :
    let r := (Backlog.ofLog membership settings log).run ops
    let b := r.backlog
    let demanded := ((poll target force).perform b).1 = .error (.resumeKeyCompacted requested earliest)
    b.nextKey < 2 ^ 64 → b.log.isClosed = false →
    (demanded ↔ Turn.lostSince target r.turns ≠ [] ∧
      (∃ c, b.channel? target = some c ∧ c.state = .active ∧ requested = c.lastConfirmed + 1) ∧
      earliest = (b.log.packets.head?.map (·.key)).getD b.nextKey) ∧
    (demanded →
      (requested < earliest ↔ ∃ p ∈ Turn.lostSince target r.turns, requested ≤ p.key)) := by
  intro r b demanded hkeys hopen
  obtain ⟨hsound, hknows⟩ : b.Sound ∧ r.Knows :=
    Run.sound_run hlog hnumbered membership settings hmax (fun _ _ hc => by cases hc) Run.knows_step
      ops hkeys hopen
  have hearliest : b.log.earliest = (b.log.packets.head?.map (·.key)).getD b.nextKey := by
    rw [← earliest_of_holds hsound.holds hopen, PacketLog.earliest, ← hsound.solvent.next]
    rfl
  have hiff : demanded ↔ _ := hsound.poll_demands_iff force requested earliest
  refine ⟨?_, fun hdemanded => ?_⟩
  · rw [hiff, hearliest]
    constructor
    · rintro ⟨c, hc, hactive, hlost, hrequested, hfirst⟩
      exact ⟨(hknows target c hc).flagged.1 hlost, ⟨c, hc, hactive, hrequested⟩, hfirst⟩
    · rintro ⟨hlost, ⟨c, hc, hactive, hrequested⟩, hfirst⟩
      exact ⟨c, hc, hactive, (hknows target c hc).flagged.2 hlost, hrequested, hfirst⟩
  · obtain ⟨c, hc, -, -, rfl, rfl⟩ := hiff.1 hdemanded
    have hmisses := hknows target c hc
    rw [hsound.earliest]
    constructor
    · intro hgone
      obtain ⟨p, hp, hkey⟩ := hmisses.complete (c.lastConfirmed + 1) (Nat.lt_succ_self _)
        (Nat.add_lt_of_lt_sub hgone)
      exact ⟨p, hp, Nat.le_of_eq hkey.symm⟩
    · rintro ⟨p, hp, hle⟩
      have hgone := hmisses.gone p hp
      show c.lastConfirmed + 1 < b.nextKey - b.log.packets.length
      exact Nat.lt_of_le_of_lt hle (Nat.lt_sub_of_add_lt hgone)

/-- What is asked of a backlog that has room for two packets: its target takes two and confirms one
after both were discarded for others. -/
def overrun : List Operation :=
  [.handshake "backup" ⟨true, 0, none⟩,
    .add (.entry (.write ⟨"Order", "a", 1, [], none⟩)) false false,
    .add (.entry (.write ⟨"Order", "b", 1, [], none⟩)) false false, .poll "backup" true,
    .add (.entry (.write ⟨"Order", "c", 1, [], none⟩)) false false,
    .add (.entry (.write ⟨"Order", "d", 1, [], none⟩)) false false, .confirm "backup" 1]

/-- Of two packets that are lost one was confirmed all the same, and the demand names the other. -/
theorem resync_demand_exact_overrun :
    let r := (Backlog.ofLog (.openTo "orders") ⟨2, .discardOldest, 10, 1000, 1⟩
      (.memory (.empty "orders" none))).run overrun
    ((poll "backup" true).perform r.backlog).1 = .error (.resumeKeyCompacted 2 3) ∧
      ∃ p ∈ Turn.lostSince "backup" r.turns, 2 ≤ p.key := by
  intro r
  have hexact := resync_demand_exact (.memory "orders" none) (by decide +kernel) (.openTo "orders")
    ⟨2, .discardOldest, 10, 1000, 1⟩ (by decide) overrun "backup" true 2 3 (by decide +kernel)
    (by decide +kernel)
  have hchannel : r.backlog.channel? "backup"
      = some ((r.backlog.channel? "backup").get (by decide +kernel)) := (Option.some_get _).symm
  have hdemanded := hexact.1.2 ⟨by decide +kernel, ⟨_, hchannel, by decide +kernel, by decide +kernel⟩,
    by decide +kernel⟩
  exact ⟨hdemanded, (hexact.2 hdemanded).1 (by decide)⟩

/-- What is asked of the same backlog when its target takes both packets and confirms them after the
first was discarded for another. -/
def overtaken : List Operation :=
  [.handshake "backup" ⟨true, 0, none⟩,
    .add (.entry (.write ⟨"Order", "a", 1, [], none⟩)) false false,
    .add (.entry (.write ⟨"Order", "b", 1, [], none⟩)) false false, .poll "backup" true,
    .add (.entry (.write ⟨"Order", "c", 1, [], none⟩)) false false, .confirm "backup" 2]

/-- A demand is not taken back once the target has confirmed all that it lost: it names a key that is
there, and so is every key that the target has not confirmed. -/
theorem resync_demand_outdated :
    ∃ (log : PacketLog) (membership : Membership) (settings : BacklogSettings) (ops : List Operation)
      (target : String) (requested earliest : Nat),
      let b := ((Backlog.ofLog membership settings log).run ops).backlog
      log.Reachable ∧ 1 ≤ settings.maxBatchSize ∧ b.log.isClosed = false ∧ b.nextKey < 2 ^ 64 ∧
        ((poll target true).perform b).1 = .error (.resumeKeyCompacted requested earliest) ∧
        ¬ requested < earliest ∧ ∃ c, b.channel? target = some c ∧ c.state = .active ∧
          ∀ key < b.nextKey, c.lastConfirmed < key → key ∈ b.log.packets.map (·.key) := by
  let settings : BacklogSettings := ⟨2, .discardOldest, 10, 1000, 1⟩
  let b := ((Backlog.ofLog (.openTo "orders") settings (.memory (.empty "orders" none))).run
    overtaken).backlog
  have hchannel : b.channel? "backup" = some ((b.channel? "backup").get (by decide +kernel)) :=
    (Option.some_get _).symm
  refine ⟨.memory (.empty "orders" none), .openTo "orders", settings, overtaken, "backup", 3, 2,
    .memory "orders" none, by decide, by decide +kernel, by decide +kernel, ?_, by decide, _, hchannel,
    by decide +kernel, by decide +kernel⟩
  have hrequested : ((b.channel? "backup").get (by decide +kernel)).lastConfirmed + 1 = 3 := by
    decide +kernel
  have hearliest : b.log.earliest = 2 := by decide +kernel
  show ((poll "backup" true).perform b).1 = _
  rw [poll_lost hchannel (by decide +kernel) (by decide +kernel), hrequested, hearliest]

end Backlog

end GroupReplication
