/-
How much a compaction removes, and what many of them come to. A compaction is told how many packets
it may remove, turns that into a key, and leaves it to the log to find out how many packets lie below
that key. The count comes out right because keys have no gaps, and because no channel confirms a key
that was not issued (`Issued`), so that the log has all packets up to the frontier.
-/
import Mathlib.Algebra.GroupWithZero.Nat
import GroupReplication.Proofs.Backlog.Covered
import GroupReplication.Proofs.Backlog.Resume
import GroupReplication.Proofs.Log.Reclaimed
import GroupReplication.Proofs.Table

namespace GroupReplication

open Packet Log GroupReplication.Action

/-! ## Keys that were issued -/

/-- The channel has not been sent a key from `nextKey` on, is not going to be, and has confirmed none. -/
structure SourceChannel.Issued (nextKey : Nat) (c : SourceChannel) : Prop where
  confirmed : c.lastConfirmed ≤ c.lastSent
  sent : c.lastSent < nextKey
  waiting : c.state = .active → c.resyncRequired = false →
    ∀ p ∈ c.accumulator.packets, p.key < nextKey

namespace SourceChannel.Issued

variable {nextKey : Nat} {c c' : SourceChannel}

theorem shifts (h : c.Issued nextKey) (hshifts : c.Shifts c') (hsettles : c.Settles c') :
    c'.Issued nextKey := by
  have hwaiting : c'.state = .active → c'.resyncRequired = false →
      ∀ p ∈ c'.accumulator.packets, p.key < nextKey := fun hactive hsynced => by
    obtain ⟨hstate, -, hpackets⟩ := hshifts.due hactive hsynced
    have hresync : c.resyncRequired = false := Bool.eq_false_iff.2 fun hlost => by
      rw [hshifts.lost hlost] at hsynced
      cases hsynced
    rw [hpackets]
    exact h.waiting hstate hresync
  cases hsettles with
  | stays hconfirmed _ _ hsent =>
    refine ⟨?_, ?_, hwaiting⟩
    · rw [hconfirmed, hsent]
      exact h.confirmed
    · rw [hsent]
      exact h.sent
  | @confirms key _ hkey =>
    refine ⟨?_, h.sent, hwaiting⟩
    show (c.confirmation.advance key).lastConfirmed ≤ c.lastSent
    rw [Confirmation.lastConfirmed_advance]
    exact Nat.max_le.2 ⟨h.confirmed, hkey⟩

theorem welcomed {start : Nat} (hpos : 1 ≤ nextKey) (hstart : start ≤ nextKey)
    (request : HandshakeRequest) (weight : Nat) :
    (Backlog.welcomed request start weight c).Issued nextKey := by
  refine ⟨Nat.le_refl _, ?_, fun _ _ p hp => by cases hp⟩
  show start - 1 < nextKey
  omega

theorem sends (h : c.Issued nextKey) {batch : List Packet} (hbatch : ∀ p ∈ batch, p.key < nextKey)
    {cursor : Cursor} {accumulator : Accumulator}
    (hwaiting : ∀ p ∈ accumulator.packets, p.key < nextKey) :
    (recordSent batch { c with cursor, accumulator }).Issued nextKey :=
  ⟨Nat.le_trans h.confirmed (le_foldl_max_key batch _), foldl_max_key_lt.2 ⟨h.sent, hbatch⟩,
    fun _ _ => hwaiting⟩

theorem discards (h : c.Issued nextKey) (removed : List Packet) :
    (c.afterDiscard removed).Issued nextKey := by
  have hsent : (c.afterDiscard removed).lastSent = c.lastSent := by
    simp only [afterDiscard]
    split <;> rfl
  refine ⟨?_, ?_, fun hactive hsynced => ?_⟩
  · rw [(c.afterDiscard_keeps removed).2, hsent]
    exact h.confirmed
  · rw [hsent]
    exact h.sent
  · rcases c.afterDiscard_cases removed with hsame | hlost
    · rw [hsame] at hactive hsynced ⊢
      exact h.waiting hactive hsynced
    · rw [hlost] at hsynced
      cases hsynced

theorem adds (h : c.Issued nextKey) {p : Packet} (hp : p.key = nextKey) (now : Nat) :
    (c.afterAdd now p).Issued (nextKey + 1) := by
  have hkeeps := c.afterAdd_keeps now p
  refine ⟨?_, ?_, fun hactive hsynced q hq => ?_⟩
  · rw [hkeeps.lastConfirmed, hkeeps.lastSent]
    exact h.confirmed
  · rw [hkeeps.lastSent]
    exact Nat.lt_succ_of_lt h.sent
  · rw [hkeeps.state] at hactive
    rw [hkeeps.resyncRequired] at hsynced
    rw [accumulator_afterAdd] at hq
    split at hq
    · rw [Accumulator.packets_push, List.mem_append, List.mem_singleton] at hq
      rcases hq with hq | rfl
      · exact Nat.lt_succ_of_lt (h.waiting hactive hsynced q hq)
      · omega
    · exact Nat.lt_succ_of_lt (h.waiting hactive hsynced q hq)

end SourceChannel.Issued

namespace Backlog

/-- The backlog numbers on behind its log, and its channels know no other keys. -/
structure Issues (b : Backlog) : Prop where
  next : b.nextKey = b.log.nextKey
  channels : ∀ target c, b.channel? target = some c → c.Issued b.nextKey

variable {b b' : Backlog} {ps : List Packet}

theorem issues_ofLog (membership : Membership) (settings : BacklogSettings) (log : PacketLog) :
    (ofLog membership settings log).Issues :=
  ⟨rfl, fun _ _ hc => by cases hc⟩

namespace Issues

theorem nextKey_pos (h : b.Issues) : 1 ≤ b.nextKey := by
  rw [h.next, PacketLog.nextKey]
  cases b.log.lastAppended with
  | none => exact Nat.le_refl 1
  | some last => exact Nat.le_add_left 1 last

theorem keyed (h : b.Issues) (hholds : b.log.Holds ps) : KeyedFrom (b.nextKey - ps.length) ps := by
  rw [h.next]
  exact hholds.keyed

theorem length_le (h : b.Issues) (hholds : b.log.Holds ps) : ps.length ≤ b.nextKey := by
  rw [h.next]
  exact hholds.length_le

theorem fares (h : b.Issues) (hholds : b.log.Holds ps) {op : Operation} {target : String}
    {ps' : List Packet} {next : Nat} {c' : SourceChannel} (hfares : b.Fares ps op target ps' next c') :
    c'.Issued next := by
  cases hfares with
  | spared hfound => exact h.channels _ _ hfound
  | touched hfound _ hshifts hsettles => exact (h.channels _ _ hfound).shifts hshifts hsettles
  | welcomed hagreed hopen =>
    have hearliest : b.retained.earliest ≤ b.nextKey := by
      have hkept := hholds.earliest hopen
      rw [PacketLog.earliest, ← h.next] at hkept
      exact Nat.le_trans (Nat.le_of_eq hkept) (Nat.sub_le ..)
    exact .welcomed h.nextKey_pos ((negotiate_bounds hagreed).2 hearliest) _ _
  | handed hfound _ hactive hsynced hhands =>
    have hissued := h.channels _ _ hfound
    have hwaiting := hissued.waiting hactive hsynced
    cases hhands with
    | @read key =>
      refine hissued.sends (fun p hp => ?_) hwaiting
      have hmem := (List.dropWhile_suffix _).subset (List.mem_of_mem_take hp)
      have hbound := ((h.keyed hholds).bounds hmem).2
      have hlength := h.length_le hholds
      omega
    | cut _ hpoll =>
      obtain ⟨-, hbatch, hrest, -⟩ := Accumulator.poll_eq_some hpoll
      refine hissued.sends (fun p hp => ?_) fun p hp => ?_
      · exact hwaiting p (List.mem_of_mem_take (hbatch ▸ hp))
      · exact hwaiting p (List.mem_of_mem_drop (hrest ▸ hp))
  | discarded hfound => exact (h.channels _ _ hfound).discards _
  | added hfound _ hp => exact ((h.channels _ _ hfound).discards _).adds hp b.now

theorem after (h : b.Issues) (hholds : b.log.Holds ps) {op : Operation}
    (hbecomes : b.Becomes ps op b') : b'.Issues := by
  obtain ⟨ps', hmoves⟩ := hbecomes.moves hholds
  exact ⟨hmoves.next h.next, fun target c' hc' => h.fares hholds (hmoves.channels target c' hc')⟩

theorem rebuilt (h : b.Issues) (membership : Membership) (settings : BacklogSettings)
    (options : FileOptions) : (b.rebuilt membership settings options).Issues := by
  unfold Backlog.rebuilt
  split
  · exact h
  · split
    · exact issues_ofLog membership settings _
    · exact h

/-- What all channels confirmed was issued. -/
theorem frontier_lt (h : b.Issues) {frontier : Nat} (hfrontier : b.frontier? = some frontier) :
    frontier < b.nextKey := by
  have hne : b.channels ≠ [] := fun hnil => by
    rw [frontier?, hnil] at hfrontier
    cases hfrontier
  obtain ⟨target, c, hc⟩ := Table.exists_get? hne
  have hissued := h.channels target c hc
  have hleast := (List.min?_eq_some_iff.1 hfrontier).2 c.lastConfirmed
    (List.mem_map_of_mem (List.mem_map_of_mem (Table.mem_values_of_get? hc)))
  exact Nat.lt_of_le_of_lt (Nat.le_trans hleast hissued.confirmed) hissued.sent

end Issues

/-! ## One compaction -/

/-- How many packets at the head of the log every channel has confirmed; none if there is no channel. -/
def trimmable (b : Backlog) : Nat :=
  match b.log.firstKey, b.frontier? with
  | some first, some frontier => if first ≤ frontier then frontier - first + 1 else 0
  | _, _ => 0

theorem Issues.trimmable_eq (h : b.Issues) (hholds : b.log.Holds ps) (hopen : b.log.isClosed = false) :
    b.trimmable = b.frontier?.elim 0 (· + 1 - (b.nextKey - ps.length)) := by
  rw [trimmable, hholds.firstKey hopen]
  cases hfrontier : b.frontier? with
  | none => cases ps <;> rfl
  | some frontier =>
    have hlt := h.frontier_lt hfrontier
    by_cases hne : ps = []
    · subst hne
      show 0 = frontier + 1 - (b.nextKey - 0)
      omega
    · have hlength := h.length_le hholds
      rw [(h.keyed hholds).head? hne]
      show (if b.nextKey - ps.length ≤ frontier then frontier - (b.nextKey - ps.length) + 1 else 0)
        = frontier + 1 - (b.nextKey - ps.length)
      split <;> omega

/-- The log has all packets that may go. -/
theorem Issues.trimmable_le (h : b.Issues) (hholds : b.log.Holds ps) (hopen : b.log.isClosed = false) :
    b.trimmable ≤ ps.length := by
  have hlength := h.length_le hholds
  rw [h.trimmable_eq hholds hopen]
  cases hfrontier : b.frontier? with
  | none => exact Nat.zero_le _
  | some frontier =>
    have hlt := h.frontier_lt hfrontier
    show frontier + 1 - (b.nextKey - ps.length) ≤ ps.length
    omega

/-- A compaction that has nothing to remove leaves the backlog as it is. -/
theorem compact_idle (hnone : b.trimmable = 0) (limit : Nat) :
    (compact limit).perform b = (.ok ⟨none, 0, 0, b.log.weight⟩, b) := by
  rw [compact, perform_get_bind]
  cases hfirst : b.log.firstKey with
  | none => rfl
  | some first =>
    cases hfrontier : b.frontier? with
    | none => rfl
    | some frontier =>
      have hbehind : frontier < first := by
        simp only [trimmable, hfirst, hfrontier] at hnone
        split at hnone
        · cases hnone
        · omega
      simp only [if_pos hbehind]
      rfl

/-- The packets at the head of a log that the key worked out from a limit leaves in reach. -/
theorem length_upTo_compactionEnd {first frontier limit : Nat} (hkeyed : KeyedFrom first ps)
    (hfrontier : frontier < first + ps.length) (hkey : frontier < 2 ^ 64) (hle : first ≤ frontier) :
    (ps.takeWhile (·.key ≤ compactionEnd first frontier limit)).length
      = min (max limit 1) (frontier - first + 1) := by
  rw [hkeyed.takeWhile_upTo, List.length_take, compactionEnd, saturate]
  omega

theorem trimmable_pos (hsome : b.trimmable ≠ 0) : ∃ first frontier, b.log.firstKey = some first ∧
    b.frontier? = some frontier ∧ first ≤ frontier ∧ b.trimmable = frontier - first + 1 := by
  rw [trimmable] at hsome ⊢
  cases hfirst : b.log.firstKey with
  | none => simp [hfirst] at hsome
  | some first =>
    cases hfrontier : b.frontier? with
    | none => simp [hfirst, hfrontier] at hsome
    | some frontier =>
      by_cases hle : first ≤ frontier
      · exact ⟨first, frontier, rfl, rfl, hle, if_pos hle⟩
      · simp [hfirst, hfrontier, hle] at hsome

/-- A compaction removes as many packets from the head as may go, up to its limit, and reports them. -/
theorem Issues.compact_pass (h : b.Issues) (hholds : b.log.Holds ps) (hopen : b.log.isClosed = false)
    (hkey : b.nextKey < 2 ^ 64) (limit : Nat) :
    let n := min (max limit 1) b.trimmable
    ∃ log, (compact limit).perform b = (.ok (removalReport ps n), { b with log }) ∧
      PacketLog.Shortened ps n b.log log := by
  intro n
  by_cases hnone : b.trimmable = 0
  · have hweight : b.log.weight = totalWeight ps := congrArg LogView.weight (hholds.view_open hopen)
    have hn : n = 0 := by
      show min (max limit 1) b.trimmable = 0
      rw [hnone, Nat.min_zero]
    refine ⟨b.log, ?_, hn ▸ .refl hholds hopen⟩
    rw [compact_idle hnone, hn, hweight]
    rfl
  · obtain ⟨first, frontier, hfirst, hfrontier, hle, htrimmable⟩ := trimmable_pos hnone
    have hlt := h.frontier_lt hfrontier
    have hlength := h.length_le hholds
    have hkeyed := h.keyed hholds
    have hhead : ps.head?.map (·.key) = some first := (hholds.firstKey hopen).symm.trans hfirst
    have hne : ps ≠ [] := by
      rintro rfl
      cases hhead
    obtain rfl : b.nextKey - ps.length = first :=
      Option.some.inj ((hkeyed.head? hne).symm.trans hhead)
    -- The key that the limit comes to lies in the log, so that as many packets are in reach.
    generalize hlast : compactionEnd (b.nextKey - ps.length) frontier limit = last
    have hcount : (ps.takeWhile (·.key ≤ last)).length = n := by
      rw [← hlast, length_upTo_compactionEnd hkeyed (by omega) (by omega) hle, ← htrimmable]
    have hrange : checkRange (b.nextKey - ps.length) last (ps.head?.map (·.key)) = .ok () := by
      have hend : b.nextKey - ps.length ≤ last := by
        rw [← hlast, compactionEnd, saturate]
        omega
      rw [hhead]
      simp [checkRange, Nat.not_lt.2 hend]
    obtain ⟨log, hok, hshort⟩ := hholds.compact_shortened hopen hrange
    rw [hcount] at hok hshort
    refine ⟨log, ?_, hshort⟩
    rw [compact, perform_get_bind]
    simp only [hfirst, hfrontier, if_neg (Nat.not_lt.2 hle), hlast]
    rw [perform_onLog, hok]

/-- What is left may be compacted in turn. -/
theorem Issues.shortened (h : b.Issues) (hholds : b.log.Holds ps) (hopen : b.log.isClosed = false)
    {n : Nat} {log : PacketLog} (hshort : PacketLog.Shortened ps n b.log log) (hn : n ≤ ps.length) :
    Issues { b with log } ∧ trimmable { b with log } = b.trimmable - n := by
  have htrims := hshort.trims hopen
  have hleft : Issues { b with log } := ⟨h.next.trans htrims.nextKey.symm, h.channels⟩
  refine ⟨hleft, ?_⟩
  have hlength := h.length_le hholds
  rw [h.trimmable_eq hholds hopen, hleft.trimmable_eq htrims.holds hshort.isOpen, List.length_drop]
  show b.frontier?.elim 0 (· + 1 - (b.nextKey - (ps.length - n))) = _
  cases hfrontier : b.frontier? with
  | none => exact (Nat.zero_sub n).symm
  | some frontier =>
    have hlt := h.frontier_lt hfrontier
    show frontier + 1 - (b.nextKey - (ps.length - n)) = frontier + 1 - (b.nextKey - ps.length) - n
    omega

/-! ## Many compactions -/

/-- Compactions of at most `limit` packets, one after the other, and what they report. -/
def compactTimes (limit : Nat) : (passes : Nat) → Action Backlog (List Compaction)
  | 0 => return []
  | passes + 1 => do
    let report ← compact limit
    let reports ← compactTimes limit passes
    return report :: reports

/-- Compactions remove together what may go, and come to a point where nothing is left to remove. -/
theorem Issues.compact_passes (h : b.Issues) (hholds : b.log.Holds ps) (hopen : b.log.isClosed = false)
    (hkey : b.nextKey < 2 ^ 64) (limit : Nat) :
    ∃ reports log, (compactTimes limit reports.length).perform b = (.ok reports, { b with log }) ∧
      PacketLog.Shortened ps b.trimmable b.log log ∧
      (∀ report ∈ reports, 0 < report.removed) ∧
      (reports.map (·.removed)).sum = b.trimmable ∧
      (reports.map (·.removedWeight)).sum = totalWeight (ps.take b.trimmable) := by
  generalize hmany : b.trimmable = many
  -- Each pass takes some of what may go, and leaves the rest of it to those that come behind.
  induction many using Nat.strongRecOn generalizing b ps with
  | ind many ih =>
    by_cases hnone : many = 0
    · subst hnone
      exact ⟨[], b.log, rfl, .refl hholds hopen, by simp, rfl, rfl⟩
    · obtain ⟨log, hpass, hshort⟩ := h.compact_pass hholds hopen hkey limit
      have hle := h.trimmable_le hholds hopen
      rw [hmany] at hpass hshort hle
      generalize hn : min (max limit 1) many = n at hpass hshort
      obtain ⟨hleft, hrest⟩ := h.shortened hholds hopen hshort (by omega)
      obtain ⟨reports, log', hpasses, hshort', hpos, hremoved, hweight⟩ :=
        ih (many - n) (by omega) hleft (hshort.trims hopen).holds hshort.isOpen hkey (by rw [hrest, hmany])
      have hboth : n + (many - n) = many := by omega
      have hsplit : totalWeight (ps.take many)
          = totalWeight (ps.take n) + totalWeight ((ps.drop n).take (many - n)) := by
        rw [← totalWeight_append, ← List.take_add, hboth]
      have hcount : (removalReport ps n).removed = n := by
        show (ps.take n).length = n
        rw [List.length_take]
        omega
      refine ⟨removalReport ps n :: reports, log', ?_, hboth ▸ hshort.trans hshort', ?_, ?_, ?_⟩
      · rw [List.length_cons, compactTimes, perform_bind_ok hpass, perform_bind_ok hpasses]
        rfl
      · rw [List.forall_mem_cons, hcount]
        exact ⟨by omega, hpos⟩
      · rw [List.map_cons, List.sum_cons, hcount, hremoved, hboth]
      · rw [List.map_cons, List.sum_cons, hweight, hsplit]
        rfl

/-- In any run, restarts included, over any log that came about by its own operations, and while the
log is open: a compaction of at most `limit` packets removes the first `min (max limit 1) b.trimmable`
packets, reports them and what is left, and changes nothing else. Compactions that are repeated until
one removes nothing remove as many packets and as much weight as a single one without a limit, and
leave the same backlog. For a log in a directory this is up to dead bytes in front of its data file,
which are dropped when they have become too many, and not at the same time. -/
theorem compact_exact {log : PacketLog} (hlog : log.Reachable) (membership : Membership)
    (settings : BacklogSettings) (events : List BacklogEvent) (limit : Nat)
    (hkeys : ∀ past, past <+: events →
      ((Run.start (.ofLog membership settings log)).undergoAll past).backlog.nextKey < 2 ^ 64) :
    let b := ((Run.start (.ofLog membership settings log)).undergoAll events).backlog
    let n := min (max limit 1) b.trimmable
    b.log.isClosed = false →
    (n ≤ b.log.packets.length ∧ ∃ left,
      (compact limit).perform b = (.ok (removalReport b.log.packets n), { b with log := left }) ∧
        left.packets = b.log.packets.drop n ∧
        left.view = .of (b.log.packets.drop n) b.log.lastAppended false ∧
        (n = 0 → left = b.log)) ∧
      ∃ reports repeated whole once,
        (compactTimes limit reports.length).perform b = (.ok reports, { b with log := repeated }) ∧
          (∀ report ∈ reports, 0 < report.removed) ∧
          (compact limit).perform { b with log := repeated }
            = (.ok ⟨none, 0, 0, repeated.weight⟩, { b with log := repeated }) ∧
          (compact (2 ^ 64 - 1)).perform b = (.ok whole, { b with log := once }) ∧
          (reports.map (·.removed)).sum = whole.removed ∧
          (reports.map (·.removedWeight)).sum = whole.removedWeight ∧
          repeated.view = once.view ∧ repeated.packets = once.packets ∧
          repeated.reclaimed = once.reclaimed ∧
          ∀ l, b.log = .memory l → repeated = once := by
  intro b n hopen
  obtain ⟨kept, hkept, -⟩ := hlog.holds
  have haccounts := (Run.accounts_start membership settings hkept).undergoAll events hkeys
  have hissues : b.Issues := (Run.accounts_start membership settings hkept).invariant
    (issues_ofLog membership settings log)
    (fun op hholds hkey hissues => hissues.after hholds (becomes_after hholds hkey op))
    (fun membership settings options hissues => hissues.rebuilt membership settings options) events hkeys
  have hkey : b.nextKey < 2 ^ 64 := hkeys events (List.prefix_refl _)
  obtain ⟨ps, hholds, -⟩ := haccounts.logged.kept
  obtain rfl := hholds.packets hopen
  have hlength := hissues.length_le hholds
  have hle := hissues.trimmable_le hholds hopen
  refine ⟨⟨Nat.le_trans (Nat.min_le_right ..) hle, ?_⟩, ?_⟩
  · obtain ⟨left, hpass, hshort⟩ := hissues.compact_pass hholds hopen hkey limit
    have htrims := hshort.trims hopen
    refine ⟨left, hpass, htrims.holds.packets hshort.isOpen, ?_, fun hnone => ?_⟩
    · rw [htrims.holds.view_open hshort.isOpen, htrims.lastAppended]
    · have hidle := compact_idle (b := b) (by omega) limit
      rw [hpass] at hidle
      exact congrArg (·.2.log) hidle
  · obtain ⟨reports, repeated, hpasses, hshort, hpos, hremoved, hweight⟩ :=
      hissues.compact_passes hholds hopen hkey limit
    obtain ⟨once, hwhole, hshort'⟩ := hissues.compact_pass hholds hopen hkey (2 ^ 64 - 1)
    have hall : min (max (2 ^ 64 - 1) 1) b.trimmable = b.trimmable := by omega
    rw [hall] at hwhole hshort'
    obtain ⟨-, hrest⟩ := hissues.shortened hholds hopen hshort hle
    have htrims := hshort.trims hopen
    have htrims' := hshort'.trims hopen
    refine ⟨reports, repeated, _, once, hpasses, hpos,
      compact_idle (by rw [hrest, Nat.sub_self]) limit, hwhole, ?_, hweight, ?_, ?_,
      hshort.unique hshort', fun l hl => ?_⟩
    · show _ = (b.log.packets.take b.trimmable).length
      rw [hremoved, List.length_take, Nat.min_eq_left hle]
    · rw [htrims.holds.view_open hshort.isOpen, htrims'.holds.view_open hshort'.isOpen,
        htrims.lastAppended, htrims'.lastAppended]
    · rw [htrims.holds.packets hshort.isOpen, htrims'.holds.packets hshort'.isOpen]
    · rw [hl] at hshort hshort'
      exact hshort.unique_memory hshort'

/-- Five packets, of which a target confirms four. -/
def mostlyConfirmed : List BacklogEvent :=
  .operate (.handshake "backup" ⟨true, 0, none⟩) ::
    ["a", "b", "c", "d", "e"].map (fun uid =>
      .operate (.add (.entry (.write ⟨"Order", uid, 1, [], none⟩)) false false)) ++
    [.operate (.poll "backup" true), .operate (.confirm "backup" 4)]

/-- A log in a directory that drops dead bytes as soon as they outweigh the live ones. -/
def tidy : PacketLog := .file (.new "orders" ⟨none, 1⟩)

theorem reachable_tidy : tidy.Reachable :=
  .file (d := ⟨"orders", true, none, none⟩) rfl rfl (FileLog.openIn_new "orders" ⟨none, 1⟩)

/-- The first compaction takes two of the four, and all that take any take four. -/
theorem compact_exact_mostlyConfirmed :
    let b := ((Run.start (.ofLog (.openTo "orders") ⟨10, .reject, 10, 1000, 10⟩ tidy)).undergoAll
      mostlyConfirmed).backlog
    (∃ left, (compact 2).perform b = (.ok ⟨some ⟨1, 2⟩, 2, 2, 3⟩, { b with log := left }) ∧
      left.packets = b.log.packets.drop 2) ∧
      ∃ reports repeated,
        (compactTimes 2 reports.length).perform b = (.ok reports, { b with log := repeated }) ∧
          (reports.map (·.removed)).sum = 4 ∧ repeated.packets = b.log.packets.drop 4 := by
  intro b
  have hshort : ∀ n, n < 9 → ((Run.start (.ofLog (.openTo "orders") ⟨10, .reject, 10, 1000, 10⟩
      tidy)).undergoAll (mostlyConfirmed.take n)).backlog.nextKey < 2 ^ 64 := by
    decide +kernel
  have hexact := fun limit => compact_exact reachable_tidy (.openTo "orders")
    ⟨10, .reject, 10, 1000, 10⟩ mostlyConfirmed limit fun past hpast => by
      rw [List.prefix_iff_eq_take.1 hpast]
      exact hshort past.length (Nat.lt_succ_of_le hpast.length_le)
  obtain ⟨hopen, htwo, hfour, hreport, hcount⟩ : b.log.isClosed = false ∧
      min (max 2 1) b.trimmable = 2 ∧ min (max (2 ^ 64 - 1) 1) b.trimmable = 4 ∧
      removalReport b.log.packets 2 = ⟨some ⟨1, 2⟩, 2, 2, 3⟩ ∧
      (removalReport b.log.packets 4).removed = 4 := by
    decide +kernel
  obtain ⟨⟨-, left, hpass, hleft, -⟩, reports, repeated, whole, once, hpasses, -, -, hwhole,
    hremoved, -, -, hpackets, -⟩ := hexact 2 hopen
  obtain ⟨⟨-, once', hwhole', honce, -⟩, -⟩ := hexact (2 ^ 64 - 1) hopen
  rw [htwo] at hpass hleft
  rw [hreport] at hpass
  rw [hfour] at hwhole' honce
  rw [hwhole] at hwhole'
  obtain ⟨hsame, hstate⟩ := Prod.mk.inj hwhole'
  refine ⟨⟨left, hpass, hleft⟩, reports, repeated, hpasses, ?_, ?_⟩
  · rw [hremoved, Except.ok.inj hsame, hcount]
  · rw [hpackets, show once = once' from congrArg (·.log) hstate, honce]

end Backlog

end GroupReplication
