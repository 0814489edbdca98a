/-
What a channel has been handed since its last handshake, and what it is still owed.

A channel that can be polled stands at a key: it was handed everything from the start of its epoch
up to there, and owes its next packets to one of two sources. While it catches up it reads the log
from that key on; once it is live its accumulator holds all packets from that key on. The two meet
without a hole because a channel goes live only when nothing is left to read (`InStep.read`).
-/
import GroupReplication.Proofs.Backlog.Step

namespace GroupReplication

open Packet Log

/-- The packets of `history` from `key` on. -/
def owed (history : List Packet) (key : Nat) : List Packet := history.filter (key ≤ ·.key)

section Owed

variable {history : List Packet} {first key : Nat}

theorem owed_eq_drop (h : KeyedFrom first history) (key : Nat) :
    owed history key = history.drop (key - first) := h.filter_le key

theorem keyedFrom_owed (h : KeyedFrom first history) (hkey : first ≤ key) :
    KeyedFrom key (owed history key) := by
  have hdrop := h.drop (key - first)
  rw [owed_eq_drop h]
  rwa [show first + (key - first) = key by omega] at hdrop

theorem length_owed (h : KeyedFrom first history) (key : Nat) :
    (owed history key).length = history.length - (key - first) := by
  rw [owed_eq_drop h, List.length_drop]

theorem owed_add (h : KeyedFrom first history) (hkey : first ≤ key) (n : Nat) :
    owed history (key + n) = (owed history key).drop n := by
  rw [owed_eq_drop h, owed_eq_drop h, List.drop_drop]
  congr 1
  omega

theorem owed_append {p : Packet} (hp : key ≤ p.key) :
    owed (history ++ [p]) key = owed history key ++ [p] := by
  rw [owed, owed, List.filter_append, List.filter_cons_of_pos (by simpa using hp)]
  rfl

/-- What is kept of a history has all that is owed from a kept key on. -/
theorem owed_of_kept {ps : List Packet} (h : KeyedFrom first history) (hkept : ps <:+ history)
    (hkey : first + history.length ≤ key + ps.length) :
    ps.dropWhile (·.key < key) = owed history key := by
  obtain ⟨gone, rfl⟩ := hkept
  have hps := (keyedFrom_append.1 h).2
  rw [List.length_append] at hkey
  have hgone : gone.drop (key - first) = [] := List.drop_eq_nil_of_le (by omega)
  rw [hps.dropWhile_lt, owed_eq_drop h, List.drop_append, hgone, List.nil_append]
  congr 1
  omega

end Owed

namespace Accumulator

theorem packets_push (now : Nat) (p : Packet) (a : Accumulator) :
    (a.push now p).packets = a.packets ++ [p] := by
  simp [packets, push]

/-- A batch is cut from the front. -/
theorem poll_eq_some {now : Nat} {force : Bool} {a a' : Accumulator} {batch : List Packet}
    (h : a.poll now force = some (batch, a')) :
    a.packets ≠ [] ∧ batch = a.packets.take a.maxSize ∧ a'.packets = a.packets.drop a.maxSize ∧
      a'.maxSize = a.maxSize := by
  rw [poll] at h
  split at h
  · rename_i hready
    cases h
    refine ⟨fun hnil => ?_, rfl, by simp [packets, List.map_drop], rfl⟩
    have hpending : a.pending = [] := List.map_eq_nil_iff.1 hnil
    simp [isEmpty, hpending] at hready
  · cases h

/-- When forced, a batch is due as long as any packet waits. -/
theorem poll_forced_eq_none {now : Nat} {a : Accumulator} (h : a.poll now true = none) :
    a.packets = [] := by
  rw [poll] at h
  split at h
  · cases h
  · rename_i hready
    have hpending : a.pending = [] := by simpa [isEmpty] using hready
    simp [packets, hpending]

end Accumulator

/-- Delivery starts at a key that is still there, or at the next that will be. -/
theorem negotiate_bounds {request : HandshakeRequest} {range : RetainedRange}
    {response : HandshakeResponse} (h : negotiate request range = .ok response) :
    range.earliest ≤ response.startKey ∧
      (range.earliest ≤ range.nextKey → response.startKey ≤ range.nextKey) := by
  simp only [negotiate] at h
  split at h
  · cases h
    exact ⟨Nat.le_refl _, id⟩
  · split at h
    · cases h
    · split at h
      · cases h
      · split at h
        · cases h
        · cases h
          exact ⟨Nat.le_of_not_lt ‹_›, fun _ => Nat.le_of_not_lt ‹_›⟩

/-- A channel that delivery started at `start` for, and that was handed `delivered` since. -/
structure InStep (settings : BacklogSettings) (history : List Packet) (nextKey start : Nat)
    (delivered : List Packet) (c : SourceChannel) : Prop where
  room : c.accumulator.maxSize = max settings.maxBatchSize 1
  first : nextKey - history.length ≤ start
  handed : delivered <+: owed history start
  within : start + delivered.length ≤ nextKey
  due : c.state = .active → c.resyncRequired = false →
    match c.cursor with
    | .catchingUp key => key = start + delivered.length ∧ c.accumulator.packets = []
    | .live => c.accumulator.packets = owed history (start + delivered.length)

/-- The packets that were ever logged, up to the last of them. -/
structure Logged (b : Backlog) (history : List Packet) : Prop where
  kept : ∃ ps, b.log.Holds ps ∧ ps <:+ history
  endsIn : EndsIn b.log.lastAppended history
  next : b.nextKey = b.log.nextKey

namespace Logged

variable {b : Backlog} {history : List Packet}

theorem keyed (h : Logged b history) : KeyedFrom (b.nextKey - history.length) history := by
  rw [h.next]
  exact h.endsIn.keyed

theorem length_le (h : Logged b history) : history.length ≤ b.nextKey := by
  rw [h.next]
  exact h.endsIn.length_le

end Logged

namespace InStep

variable {settings : BacklogSettings} {history delivered : List Packet} {nextKey start : Nat}
  {c c' : SourceChannel}

/-- A channel stays in step as long as what it would hand out next stays. -/
theorem shifts (h : InStep settings history nextKey start delivered c) (hshifts : c.Shifts c') :
    InStep settings history nextKey start delivered c' where
  room := hshifts.room.trans h.room
  first := h.first
  handed := h.handed
  within := h.within
  due hactive hsynced := by
    obtain ⟨hstate, hcursor, hpackets⟩ := hshifts.due hactive hsynced
    have hresync : c.resyncRequired = false := by
      cases hlost : c.resyncRequired with
      | false => rfl
      | true => rw [hshifts.lost hlost] at hsynced; cases hsynced
    rw [hcursor, hpackets]
    exact h.due hstate hresync

theorem afterDiscard (h : InStep settings history nextKey start delivered c)
    (removed : List Packet) :
    InStep settings history nextKey start delivered (c.afterDiscard removed) := by
  rcases SourceChannel.afterDiscard_cases c removed with heq | hlost
  · rwa [heq]
  · obtain ⟨hroom, hconfirmed⟩ := SourceChannel.afterDiscard_keeps c removed
    refine h.shifts ⟨hroom, Nat.le_of_eq hconfirmed.symm, fun _ => hlost, ?_,
      fun hrest => (c.state_afterDiscard removed).symm ▸ hrest⟩
    intro _ hsynced
    rw [hlost] at hsynced
    cases hsynced

/-- A new packet is owed as well, and reaches a live channel at once. -/
theorem afterAdd (h : InStep settings history nextKey start delivered c) {p : Packet} (now : Nat)
    (hkey : p.key = nextKey) (hlen : history.length ≤ nextKey) :
    InStep settings (history ++ [p]) (nextKey + 1) start delivered (c.afterAdd now p) := by
  have hstart := h.within
  refine ⟨?_, ?_, ?_, by omega, fun hactive hsynced => ?_⟩
  · simp only [SourceChannel.afterAdd]
    split <;> exact h.room
  · have := h.first
    rw [List.length_append, List.length_singleton]
    omega
  · rw [owed_append (by omega)]
    exact h.handed.trans (List.prefix_append _ _)
  · by_cases hlive : c.state = .active ∧ c.cursor = .live
    · have hdue := h.due hlive.1 (by simpa [SourceChannel.afterAdd, hlive] using hsynced)
      rw [hlive.2] at hdue
      simp only at hdue
      simp only [SourceChannel.afterAdd, hlive, and_self, if_true]
      rw [Accumulator.packets_push, hdue, owed_append (by omega)]
    · have hafter : c.afterAdd now p
          = { c with confirmation := c.confirmation.addWeight p.weight } := by
        rw [SourceChannel.afterAdd, if_neg hlive]
      rw [hafter] at hactive hsynced ⊢
      have hdue := h.due hactive hsynced
      cases hcursor : c.cursor with
      | catchingUp key =>
        rw [hcursor] at hdue
        exact hdue
      | live => exact absurd ⟨hactive, hcursor⟩ hlive

/-- A batch from the accumulator is the next that is owed. -/
theorem cut (h : InStep settings history nextKey start delivered c)
    (hkeyed : KeyedFrom (nextKey - history.length) history) (hlen : history.length ≤ nextKey)
    (hactive : c.state = .active) (hsynced : c.resyncRequired = false)
    (hlive : c.cursor = .live) {now : Nat} {force : Bool} {batch : List Packet} {a : Accumulator}
    (hpoll : c.accumulator.poll now force = some (batch, a)) :
    InStep settings history nextKey start (delivered ++ batch)
      ({ c with accumulator := a }.recordSent batch) := by
  obtain ⟨-, hbatch, hrest, hsize⟩ := Accumulator.poll_eq_some hpoll
  have hdue := h.due hactive hsynced
  rw [hlive] at hdue
  simp only at hdue
  obtain ⟨rest, hhanded⟩ := h.handed
  have hfirst := h.first
  have howed : owed history (start + delivered.length) = rest := by
    rw [owed_add hkeyed (by omega), ← hhanded, List.drop_left]
  have hlength : rest.length = nextKey - (start + delivered.length) := by
    rw [← howed, length_owed hkeyed]
    omega
  rw [hdue, howed] at hbatch hrest
  have hwithin := h.within
  have hcut : batch.length ≤ rest.length := by
    rw [hbatch, List.length_take]
    omega
  refine ⟨hsize.trans h.room, hfirst, ?_, ?_, fun _ _ => ?_⟩
  · rw [← hhanded]
    refine (List.prefix_append_right_inj delivered).2 ?_
    rw [hbatch]
    exact List.take_prefix _ _
  · rw [List.length_append]
    omega
  · show match c.cursor with | .catchingUp key => _ | .live => a.packets = _
    rw [hlive]
    simp only
    rw [hrest, List.length_append, ← Nat.add_assoc, owed_add hkeyed (by omega), howed, hbatch,
      List.length_take]
    rcases Nat.le_total c.accumulator.maxSize rest.length with hle | hle
    · rw [Nat.min_eq_left hle]
    · rw [Nat.min_eq_right hle, List.drop_eq_nil_of_le hle, List.drop_length]

/-- A channel that read all there is goes live. -/
theorem cursorAfter_of_keyed {batch : List Packet} {key next : Nat} (h : KeyedFrom key batch)
    (hne : batch ≠ []) (hnext : key + batch.length ≤ next) :
    Backlog.cursorAfter (some (next - 1)) batch
      = if key + batch.length < next then .catchingUp (key + batch.length) else .live := by
  have hpos : 0 < batch.length := List.length_pos_iff.2 hne
  have hlast := h.getLast? hne
  obtain ⟨p, hp⟩ := Option.ne_none_iff_exists'.1 (mt List.getLast?_eq_none_iff.1 hne)
  rw [hp] at hlast
  simp only [Option.map_some, Option.some.injEq] at hlast
  simp only [Backlog.cursorAfter, hp]
  by_cases hmore : key + batch.length < next
  · rw [if_pos hmore, if_pos (by omega)]
    congr 1
    omega
  · rw [if_neg hmore, if_neg (by omega)]

/-- A batch from the log is the next that is owed. The channel stays behind its last packet, or
goes live when that was the last packet of all, and nothing is owed any more. -/
theorem read {b : Backlog} {ps : List Packet} {key : Nat}
    (h : InStep settings history b.nextKey start delivered c) (hlogged : Logged b history)
    (hholds : b.log.Holds ps) (hkept : ps <:+ history) (hsettings : b.settings = settings)
    (hbatch : 1 ≤ settings.maxBatchSize) (hactive : c.state = .active)
    (hsynced : c.resyncRequired = false) (hcursor : c.cursor = .catchingUp key)
    (hopen : b.log.isClosed = false) (hearliest : b.log.earliest ≤ key) :
    InStep settings history b.nextKey start (delivered ++ b.batchFrom ps key)
      (b.caughtUp (b.batchFrom ps key) c) ∧
    b.batchFrom ps key = (owed history (start + delivered.length)).take settings.maxBatchSize := by
  obtain ⟨rfl, hempty⟩ : key = start + delivered.length ∧ c.accumulator.packets = [] := by
    have hdue := h.due hactive hsynced
    rwa [hcursor] at hdue
  have hkeyed := hlogged.keyed
  have hlen := hlogged.length_le
  have hfirst := h.first
  have hwithin := h.within
  have hpsle := hholds.length_le
  rw [hholds.earliest hopen, ← hlogged.next] at hearliest
  obtain ⟨rest, hhanded⟩ := h.handed
  have howed : owed history (start + delivered.length) = rest := by
    rw [owed_add hkeyed (by omega), ← hhanded, List.drop_left]
  have hlength : rest.length = b.nextKey - (start + delivered.length) := by
    rw [← howed, length_owed hkeyed]
    omega
  have hcut : b.batchFrom ps (start + delivered.length) = rest.take settings.maxBatchSize := by
    rw [Backlog.batchFrom, owed_of_kept hkeyed hkept (by omega), howed, hsettings]
  rw [howed, hcut]
  refine ⟨⟨h.room, hfirst, ?_, ?_, fun _ _ => ?_⟩, rfl⟩
  · rw [← hhanded]
    exact (List.prefix_append_right_inj delivered).2 (List.take_prefix _ _)
  · rw [List.length_append, List.length_take]
    omega
  · have hrest : KeyedFrom (start + delivered.length) rest := by
      rw [← howed]
      exact keyedFrom_owed hkeyed (by omega)
    show match Backlog.cursorAfter b.log.lastKey (rest.take settings.maxBatchSize) with
      | .catchingUp key => key = start + (delivered ++ rest.take settings.maxBatchSize).length ∧
          c.accumulator.packets = []
      | .live => c.accumulator.packets
          = owed history (start + (delivered ++ rest.take settings.maxBatchSize).length)
    rw [hempty, List.length_append, ← Nat.add_assoc, owed_add hkeyed (by omega), howed]
    by_cases hnone : rest = []
    · subst hnone
      simp [Backlog.cursorAfter]
    · have hpos : 0 < rest.length := List.length_pos_iff.2 hnone
      have hne : rest.take settings.maxBatchSize ≠ [] := by
        simp only [ne_eq, List.take_eq_nil_iff, hnone, or_false]
        omega
      have htail : b.log.lastKey = some (b.nextKey - 1) := by
        have hpsne : ps ≠ [] := by
          rintro rfl
          simp only [List.length_nil] at hearliest
          omega
        have hnext := hlogged.next
        rw [hholds.lastKey hopen, hholds.keyed.getLast? hpsne]
        congr 1
        omega
      have htake : (rest.take settings.maxBatchSize).length ≤ rest.length := by
        rw [List.length_take]
        omega
      rw [htail, cursorAfter_of_keyed (hrest.take _) hne (by omega)]
      by_cases hmore : start + delivered.length + (rest.take settings.maxBatchSize).length < b.nextKey
      · simp only [if_pos hmore, and_self]
      · simp only [if_neg hmore]
        rw [List.drop_of_length_le (by omega)]

/-- A handshake starts a new epoch at the key that it settled on. -/
theorem welcomed {request : HandshakeRequest} {weight : Nat}
    (hroom : c.accumulator.maxSize = max settings.maxBatchSize 1)
    (hfirst : nextKey - history.length ≤ start) (hstart : start ≤ nextKey) :
    InStep settings history nextKey start [] (Backlog.welcomed request start weight c) where
  room := hroom
  first := hfirst
  handed := List.nil_prefix
  within := hstart
  due _ _ := ⟨rfl, rfl⟩

/-- What is handed out is what comes next. -/
theorem hands {b : Backlog} {ps batch : List Packet} {force : Bool}
    (h : InStep settings history b.nextKey start delivered c) (hlogged : Logged b history)
    (hholds : b.log.Holds ps) (hkept : ps <:+ history) (hsettings : b.settings = settings)
    (hbatch : 1 ≤ settings.maxBatchSize) (hactive : c.state = .active)
    (hsynced : c.resyncRequired = false) (hhands : b.Hands ps force c batch c') :
    InStep settings history b.nextKey start (delivered ++ batch) c' := by
  cases hhands with
  | read hcursor hopen hearliest =>
    exact (h.read hlogged hholds hkept hsettings hbatch hactive hsynced hcursor hopen hearliest).1
  | cut hlive hpoll => exact h.cut hlogged.keyed hlogged.length_le hactive hsynced hlive hpoll

end InStep

/-! ## What every operation preserves -/

/-- The history after a turn. -/
def historyAfter (history : List Packet) (t : Turn) : List Packet :=
  history ++ t.appended?.toList

/-- Where epochs start after a turn. -/
def startAfter (start? : String → Option Nat) (t : Turn) (target : String) : Option Nat :=
  (t.start? target).or (start? target)

/-- What has been handed out in the epochs after a turn. -/
def deliveredAfter (delivered : String → List Packet) (t : Turn) (target : String) : List Packet :=
  if (t.start? target).isSome then [] else delivered target ++ (t.batch? target).getD []

namespace Turn.Silent

variable {t : Turn}

theorem history (h : t.Silent) (history : List Packet) : historyAfter history t = history := by
  rw [historyAfter, h.appended, Option.toList_none, List.append_nil]

theorem starts (h : t.Silent) (start? : String → Option Nat) : startAfter start? t = start? := by
  funext target
  rw [startAfter, h.start, Option.none_or]

theorem delivers (h : t.Silent) (delivered : String → List Packet) :
    deliveredAfter delivered t = delivered := by
  funext target
  rw [deliveredAfter, h.start, h.batch]
  simp

end Turn.Silent

namespace Logged

open Backlog

variable {b : Backlog} {history ps : List Packet}

theorem of_trims (h : Logged b history) {n : Nat} {log : PacketLog} (hkept : ps <:+ history)
    (hto : b.log.TrimsTo (ps.drop n) log) {b' : Backlog} (hlog : b'.log = log)
    (hnext : b'.nextKey = b.nextKey) : Logged b' history := by
  refine ⟨⟨ps.drop n, hlog ▸ hto.holds, (List.drop_suffix n ps).trans hkept⟩, ?_, ?_⟩
  · rw [hlog, hto.lastAppended]
    exact h.endsIn
  · rw [hnext, hlog, hto.nextKey, h.next]

/-- The history only grows, by what is logged, and the log keeps its end. -/
theorem after (h : Logged b history) (hholds : b.log.Holds ps) (hkept : ps <:+ history)
    {op : Operation} {b' : Backlog} (hbecomes : b.Becomes ps op b') :
    Logged b' (historyAfter history ⟨b, op⟩) := by
  have hsame : ∀ {b' : Backlog}, b'.log = b.log → b'.nextKey = b.nextKey → Logged b' history :=
    fun hlog hnext => h.of_trims (n := 0) hkept (.refl hholds) hlog hnext
  cases hbecomes with
  | idle hlog hnext _ _ hsilent =>
    rw [hsilent.history]
    exact hsame hlog hnext
  | touched _ _ hsilent =>
    rw [hsilent.history]
    exact hsame rfl rfl
  | welcomed hasked =>
    subst hasked
    rw [historyAfter, show Turn.appended? ⟨b, .handshake _ _⟩ = none from rfl, Option.toList_none,
      List.append_nil]
    exact hsame rfl rfl
  | handed hasked =>
    subst hasked
    rw [historyAfter, show Turn.appended? ⟨b, .poll _ _⟩ = none from rfl, Option.toList_none,
      List.append_nil]
    exact hsame rfl rfl
  | detached hto _ hsilent =>
    rw [hsilent.history]
    exact h.of_trims hkept hto rfl rfl
  | compacted hto _ hsilent =>
    rw [hsilent.history]
    exact h.of_trims hkept hto rfl rfl
  | refused hto hsilent =>
    rw [hsilent.history]
    exact h.of_trims hkept hto rfl rfl
  | @added payload transient fromGateway n log log' _ _ hholds' hlast _ _ _ happended =>
    have hlen := h.length_le
    have hkeyed := h.keyed
    rw [historyAfter, happended, Option.toList_some]
    refine ⟨⟨_, hholds', ?_⟩, ?_, ?_⟩
    · exact List.suffix_append_self_iff.2 ((List.drop_suffix n ps).trans hkept)
    · show EndsIn log'.lastAppended (history ++ [b.numbered payload transient fromGateway])
      rw [hlast]
      refine ⟨?_, ?_, by simp⟩
      · rw [following_some, List.length_append, List.length_singleton, Nat.add_sub_add_right,
          keyedFrom_append]
        exact ⟨hkeyed, by simp only [numbered]; omega, trivial⟩
      · rw [following_some, List.length_append, List.length_singleton]
        omega
    · show b.nextKey + 1 = log'.nextKey
      rw [PacketLog.nextKey, hlast]
      rfl
  | @closed log hasked hholds' _ hlast =>
    subst hasked
    rw [historyAfter, show Turn.appended? ⟨b, .close⟩ = none from rfl, Option.toList_none,
      List.append_nil]
    refine ⟨⟨ps, hholds', hkept⟩, ?_, ?_⟩
    · show EndsIn log.lastAppended history
      rw [hlast]
      exact h.endsIn
    · show b.nextKey = log.nextKey
      rw [PacketLog.nextKey, hlast]
      exact h.next

end Logged

namespace Backlog

variable {b b' : Backlog} {ps : List Packet} {op : Operation}

/-- Only what is logged gets a key. -/
theorem Becomes.nextKey (h : b.Becomes ps op b') :
    b'.nextKey = b.nextKey + (Turn.appended? ⟨b, op⟩).toList.length := by
  cases h with
  | idle _ hnext _ _ hsilent => rw [hsilent.appended, hnext]; rfl
  | touched _ _ hsilent => rw [hsilent.appended]; rfl
  | welcomed hasked => subst hasked; rfl
  | handed hasked => subst hasked; rfl
  | detached _ _ hsilent => rw [hsilent.appended]; rfl
  | compacted _ _ hsilent => rw [hsilent.appended]; rfl
  | refused _ hsilent => rw [hsilent.appended]; rfl
  | added _ _ _ _ _ _ _ happended => rw [happended]; rfl
  | closed hasked => subst hasked; rfl

/-- What is logged fits its record. -/
theorem Becomes.fits (h : b.Becomes ps op b') (hkey : b.nextKey < 2 ^ 64) {p : Packet}
    (hp : Turn.appended? ⟨b, op⟩ = some p) : p.Fits := by
  have hsilent : ∀ {op}, Turn.Silent ⟨b, op⟩ → Turn.appended? ⟨b, op⟩ = some p → p.Fits := by
    intro op hsilent hp
    rw [hsilent.appended] at hp
    cases hp
  cases h with
  | idle _ _ _ _ h | touched _ _ h | detached _ _ h | compacted _ _ h | refused _ h =>
    exact hsilent h hp
  | welcomed hasked | handed hasked | closed hasked =>
    subst hasked
    cases hp
  | added _ _ _ _ _ _ _ happended =>
    rw [happended] at hp
    cases hp
    exact fits_numbered _ _ _ hkey

/-- A channel that can be polled after an operation other than its own handshake could be polled
before. -/
theorem Becomes.pollable (h : b.Becomes ps op b') {target : String}
    (hstart : Turn.start? target ⟨b, op⟩ = none) {c' : SourceChannel}
    (hc' : b'.channel? target = some c') (hactive : c'.state = .active)
    (hsynced : c'.resyncRequired = false) :
    ∃ c, b.channel? target = some c ∧ c.state = .active ∧ c.resyncRequired = false := by
  have hdiscarded : ∀ {c removed}, (SourceChannel.afterDiscard removed c).state = .active →
      (c.afterDiscard removed).resyncRequired = false → c.state = .active ∧ c.resyncRequired = false := by
    intro c removed hstate hresync
    rcases SourceChannel.afterDiscard_cases c removed with heq | hlost
    · rw [heq] at hstate hresync
      exact ⟨hstate, hresync⟩
    · rw [hlost] at hresync
      cases hresync
  cases h with
  | idle _ _ _ hchannels =>
    rw [channel?, hchannels] at hc'
    exact ⟨c', hc', hactive, hsynced⟩
  | @touched touched c d hfound hshifts =>
    by_cases hsame : target = touched
    · subst hsame
      rw [channel?_withChannel_self] at hc'
      cases hc'
      refine ⟨c, hfound, (hshifts.due hactive hsynced).1, ?_⟩
      cases hlost : c.resyncRequired with
      | false => rfl
      | true => rw [hshifts.lost hlost] at hsynced; cases hsynced
    · rw [channel?_withChannel_other hsame] at hc'
      exact ⟨c', hc', hactive, hsynced⟩
  | @welcomed welcome _ _ _ _ _ _ _ _ hstarted =>
    by_cases hsame : target = welcome
    · subst hsame
      rw [hstart] at hstarted
      cases hstarted
    · rw [channel?_withChannel_other hsame] at hc'
      exact ⟨c', hc', hactive, hsynced⟩
  | @handed handed _ c _ _ _ hfound hstate hresync =>
    by_cases hsame : target = handed
    · subst hsame
      exact ⟨c, hfound, hstate, hresync⟩
    · rw [channel?_withChannel_other hsame] at hc'
      exact ⟨c', hc', hactive, hsynced⟩
  | @detached gone =>
    by_cases hsame : target = gone
    · subst hsame
      simp [channel?] at hc'
    · rw [channel?, Table.get?_erase_other _ hsame] at hc'
      exact ⟨c', hc', hactive, hsynced⟩
  | compacted => exact ⟨c', hc', hactive, hsynced⟩
  | refused =>
    rw [channel?_discarded] at hc'
    obtain ⟨c, hc, rfl⟩ := Option.map_eq_some_iff.1 hc'
    exact ⟨c, hc, hdiscarded hactive hsynced⟩
  | added =>
    rw [channel?_extended, channel?_discarded, Option.map_map] at hc'
    obtain ⟨c, hc, rfl⟩ := Option.map_eq_some_iff.1 hc'
    have hafter : ∀ (c : SourceChannel) (p : Packet), (c.afterAdd b.now p).state = c.state ∧
        (c.afterAdd b.now p).resyncRequired = c.resyncRequired := by
      intro c p
      simp only [SourceChannel.afterAdd]
      constructor <;> split <;> rfl
    simp only [Function.comp_apply] at hactive hsynced
    exact ⟨c, hc, hdiscarded ((hafter _ _).1.symm.trans hactive) ((hafter _ _).2.symm.trans hsynced)⟩
  | closed => exact ⟨c', hc', hactive, hsynced⟩

end Backlog

/-- A backlog whose packets and channels fit what was logged, where the epochs started, and what was
handed out in them. -/
structure Coherent (settings : BacklogSettings) (b : Backlog) (history : List Packet)
    (start? : String → Option Nat) (delivered : String → List Packet) : Prop where
  logged : Logged b history
  configured : b.settings = settings
  channels : ∀ target c, b.channel? target = some c → ∃ start, start? target = some start ∧
    InStep settings history b.nextKey start (delivered target) c

namespace Coherent

open Backlog

variable {settings : BacklogSettings} {b : Backlog} {history : List Packet}
  {start? : String → Option Nat} {delivered : String → List Packet}

/-- The channel that a handshake of the target starts from cuts by the configured size, whether the
target has one yet or not. -/
theorem room (h : Coherent settings b history start? delivered) (target : String) :
    ((b.channel? target).getD
      (.fresh (.empty b.settings.maxBatchSize b.settings.maxBatchAge))).accumulator.maxSize
      = max settings.maxBatchSize 1 := by
  cases hc : b.channel? target with
  | none =>
    rw [← h.configured]
    rfl
  | some c =>
    obtain ⟨start, -, hin⟩ := h.channels target c hc
    exact hin.room

theorem after_welcomed (h : Coherent settings b history start? delivered) {ps : List Packet}
    (hholds : b.log.Holds ps) (hkept : ps <:+ history) {welcome : String}
    {request : HandshakeRequest} {response : HandshakeResponse} {weight : Nat}
    (hagreed : negotiate request b.retained = .ok response) (hopen : b.log.isClosed = false)
    (hstarted : Turn.start? welcome ⟨b, .handshake welcome request⟩ = some response.startKey)
    {target : String} {c' : SourceChannel}
    (hc' : (b.withChannel welcome (Backlog.welcomed request response.startKey weight
      ((b.channel? welcome).getD
        (.fresh (.empty b.settings.maxBatchSize b.settings.maxBatchAge))))).channel? target
      = some c') :
    ∃ start, startAfter start? ⟨b, .handshake welcome request⟩ target = some start ∧
      InStep settings history b.nextKey start
        (deliveredAfter delivered ⟨b, .handshake welcome request⟩ target) c' := by
  by_cases hsame : target = welcome
  · subst hsame
    rw [channel?_withChannel_self] at hc'
    cases hc'
    refine ⟨response.startKey, by rw [startAfter, hstarted]; rfl, ?_⟩
    rw [deliveredAfter, hstarted]
    have hbounds := negotiate_bounds hagreed
    have hearliest : b.retained.earliest = b.nextKey - ps.length := by
      have := hholds.earliest hopen
      rw [PacketLog.earliest, ← h.logged.next] at this
      exact this
    have hle := hkept.length_le
    have hfirst : b.nextKey - history.length ≤ response.startKey := by omega
    have hstart : response.startKey ≤ b.nextKey :=
      hbounds.2 (by rw [hearliest]; exact Nat.sub_le _ _)
    exact InStep.welcomed (h.room target) hfirst hstart
  · have hother : Turn.start? target ⟨b, .handshake welcome request⟩ = none := by
      simp [Turn.start?, Ne.symm hsame]
    rw [channel?_withChannel_other hsame] at hc'
    obtain ⟨start, hstart, hin⟩ := h.channels target c' hc'
    refine ⟨start, by rw [startAfter, hother]; exact hstart, ?_⟩
    rw [deliveredAfter, hother]
    simpa [Turn.batch?] using hin

theorem after_handed (h : Coherent settings b history start? delivered)
    (hbatch : 1 ≤ settings.maxBatchSize) {ps : List Packet} (hholds : b.log.Holds ps)
    (hkept : ps <:+ history) {handed : String} {force : Bool} {c d : SourceChannel}
    {batch : List Packet} (hfound : b.channel? handed = some c) (hactive : c.state = .active)
    (hsynced : c.resyncRequired = false) (hhands : b.Hands ps force c batch d)
    (hanswered : (Turn.batch? handed ⟨b, .poll handed force⟩).getD [] = batch)
    {target : String} {c' : SourceChannel}
    (hc' : (b.withChannel handed d).channel? target = some c') :
    ∃ start, startAfter start? ⟨b, .poll handed force⟩ target = some start ∧
      InStep settings history b.nextKey start
        (deliveredAfter delivered ⟨b, .poll handed force⟩ target) c' := by
  have hnostart : Turn.start? target ⟨b, .poll handed force⟩ = none := rfl
  rw [startAfter, deliveredAfter, hnostart, Option.none_or]
  by_cases hsame : target = handed
  · subst hsame
    rw [channel?_withChannel_self] at hc'
    cases hc'
    obtain ⟨start, hstart, hin⟩ := h.channels target c hfound
    refine ⟨start, hstart, ?_⟩
    rw [if_neg (by simp), hanswered]
    exact hin.hands h.logged hholds hkept h.configured hbatch hactive hsynced hhands
  · have hother : Turn.batch? target ⟨b, .poll handed force⟩ = none := by
      simp [Turn.batch?, Ne.symm hsame]
    rw [channel?_withChannel_other hsame] at hc'
    obtain ⟨start, hstart, hin⟩ := h.channels target c' hc'
    refine ⟨start, hstart, ?_⟩
    rw [hother]
    simpa using hin

theorem after_added (h : Coherent settings b history start? delivered) {payload : Payload}
    {transient fromGateway : Bool} {removed : List Packet} {log log' : PacketLog}
    {target : String} {c' : SourceChannel}
    (hc' : ((b.discarded removed log).extended (b.numbered payload transient fromGateway)
      log').channel? target = some c') :
    ∃ start, startAfter start? ⟨b, .add payload transient fromGateway⟩ target = some start ∧
      InStep settings (history ++ [b.numbered payload transient fromGateway]) (b.nextKey + 1) start
        (deliveredAfter delivered ⟨b, .add payload transient fromGateway⟩ target) c' := by
  have hquiet : Turn.start? target ⟨b, .add payload transient fromGateway⟩ = none ∧
      Turn.batch? target ⟨b, .add payload transient fromGateway⟩ = none := ⟨rfl, rfl⟩
  rw [startAfter, deliveredAfter, hquiet.1, hquiet.2, Option.none_or]
  rw [channel?_extended, channel?_discarded, Option.map_map] at hc'
  obtain ⟨c, hc, rfl⟩ := Option.map_eq_some_iff.1 hc'
  obtain ⟨start, hstart, hin⟩ := h.channels target c hc
  refine ⟨start, hstart, ?_⟩
  simp only [Option.isSome_none, Bool.false_eq_true, if_false, Option.getD_none, List.append_nil]
  exact (hin.afterDiscard _).afterAdd _ rfl h.logged.length_le

/-- Every operation keeps a backlog coherent. -/
theorem after (h : Coherent settings b history start? delivered) (hkey : b.nextKey < 2 ^ 64)
    (hbatch : 1 ≤ settings.maxBatchSize) (op : Operation) :
    Coherent settings (op.after b) (historyAfter history ⟨b, op⟩) (startAfter start? ⟨b, op⟩)
      (deliveredAfter delivered ⟨b, op⟩) := by
  obtain ⟨ps, hholds, hkept⟩ := h.logged.kept
  have hbecomes := becomes_after hholds hkey op
  have hlogged := h.logged.after hholds hkept hbecomes
  generalize op.after b = b' at hbecomes hlogged
  refine ⟨hlogged, ?_, ?_⟩
  · cases hbecomes with
    | idle _ _ hsettings => exact hsettings.trans h.configured
    | _ => exact h.configured
  intro target c' hc'
  cases hbecomes with
  | idle _ hnext _ hchannels hsilent =>
    rw [hsilent.history, hsilent.starts, hsilent.delivers, hnext]
    rw [channel?, hchannels] at hc'
    exact h.channels target c' hc'
  | @touched touched c d hfound hshifts hsilent =>
    rw [hsilent.history, hsilent.starts, hsilent.delivers]
    by_cases hsame : target = touched
    · subst hsame
      rw [channel?_withChannel_self] at hc'
      cases hc'
      obtain ⟨start, hstart, hin⟩ := h.channels target c hfound
      exact ⟨start, hstart, hin.shifts hshifts⟩
    · rw [channel?_withChannel_other hsame] at hc'
      exact h.channels target c' hc'
  | welcomed hasked hagreed hopen hfound hstarted =>
    subst hasked hfound
    rw [historyAfter, show Turn.appended? ⟨b, .handshake _ _⟩ = none from rfl,
      Option.toList_none, List.append_nil]
    exact h.after_welcomed hholds hkept hagreed hopen hstarted hc'
  | handed hasked hfound hactive hsynced hhands hanswered =>
    subst hasked
    rw [historyAfter, show Turn.appended? ⟨b, .poll _ _⟩ = none from rfl,
      Option.toList_none, List.append_nil]
    exact h.after_handed hbatch hholds hkept hfound hactive hsynced hhands hanswered hc'
  | @detached gone n log _ _ hsilent =>
    rw [hsilent.history, hsilent.starts, hsilent.delivers]
    by_cases hsame : target = gone
    · subst hsame
      simp [channel?] at hc'
    · rw [channel?, Table.get?_erase_other _ hsame] at hc'
      exact h.channels target c' hc'
  | compacted _ _ hsilent =>
    rw [hsilent.history, hsilent.starts, hsilent.delivers]
    exact h.channels target c' hc'
  | refused _ hsilent =>
    rw [hsilent.history, hsilent.starts, hsilent.delivers]
    rw [channel?_discarded] at hc'
    obtain ⟨c, hc, rfl⟩ := Option.map_eq_some_iff.1 hc'
    obtain ⟨start, hstart, hin⟩ := h.channels target c hc
    exact ⟨start, hstart, hin.afterDiscard _⟩
  | added _ _ _ _ _ _ hasked happended =>
    subst hasked
    rw [historyAfter, happended, Option.toList_some]
    exact h.after_added hc'
  | closed hasked =>
    subst hasked
    have hsilent : Turn.Silent ⟨b, .close⟩ := ⟨rfl, fun _ => rfl, fun _ => rfl⟩
    rw [hsilent.history, hsilent.starts, hsilent.delivers]
    exact h.channels target c' hc'

end Coherent

end GroupReplication
