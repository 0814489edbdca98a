/-
Gap-free delivery: in every epoch of a channel the batches, put behind one another, are the logged
packets from the epoch's start on, and nothing is skipped for good. A channel that lost a packet
before confirming it is handed nothing more until its next handshake.
-/
import GroupReplication.Proofs.Backlog.Epoch

namespace GroupReplication

open Packet Log GroupReplication.Action

/-! ## Runs -/

namespace Run

theorem nextKey_le_steps (r : Run) (ops : List Operation) :
    r.backlog.nextKey ≤ (r.steps ops).backlog.nextKey := by
  induction ops generalizing r with
  | nil => exact Nat.le_refl _
  | cons op ops ih => exact Nat.le_trans (Backlog.nextKey_le_after r.backlog op) (ih (r.step op))

/-- The backlog that a run leads to fits what its turns show, over a log that held `kept`. -/
def Fits (settings : BacklogSettings) (kept : List Packet) (r : Run) : Prop :=
  Coherent settings r.backlog (kept ++ Turn.appended r.turns) (Turn.startKey? · r.turns)
    (Turn.delivered · r.turns)

variable {settings : BacklogSettings} {kept : List Packet} {r : Run}

theorem Fits.step (h : r.Fits settings kept) (hkey : r.backlog.nextKey < 2 ^ 64)
    (hbatch : 1 ≤ settings.maxBatchSize) (op : Operation) : (r.step op).Fits settings kept := by
  have hafter := h.after hkey hbatch op
  have hhistory : historyAfter (kept ++ Turn.appended r.turns) ⟨r.backlog, op⟩
      = kept ++ Turn.appended (r.step op).turns := by
    rw [historyAfter, List.append_assoc]
    rfl
  have hstart : startAfter (Turn.startKey? · r.turns) ⟨r.backlog, op⟩
      = (Turn.startKey? · (r.step op).turns) := by
    funext target
    exact Turn.startKey?_cons.symm
  have hdelivered : deliveredAfter (Turn.delivered · r.turns) ⟨r.backlog, op⟩
      = (Turn.delivered · (r.step op).turns) := by
    funext target
    exact Turn.delivered_cons.symm
  rwa [hhistory, hstart, hdelivered] at hafter

theorem Fits.steps (h : r.Fits settings kept) (hbatch : 1 ≤ settings.maxBatchSize)
    (ops : List Operation) (hkeys : (r.steps ops).backlog.nextKey < 2 ^ 64) :
    (r.steps ops).Fits settings kept := by
  induction ops generalizing r with
  | nil => exact h
  | cons op ops ih =>
    have hkey : r.backlog.nextKey < 2 ^ 64 :=
      Nat.lt_of_le_of_lt (r.nextKey_le_steps (op :: ops)) hkeys
    exact ih (h.step hkey hbatch op) hkeys

/-- A new backlog has no channels, and its history is what its log holds. -/
theorem fits_start {log : PacketLog} (membership : Membership) (settings : BacklogSettings)
    (hholds : log.Holds kept) :
    (Run.start (.ofLog membership settings log)).Fits settings kept where
  logged := by
    refine ⟨⟨kept, hholds, ?_⟩, ?_, rfl⟩
    · exact (List.append_nil kept).symm ▸ List.suffix_refl kept
    · exact (List.append_nil kept).symm ▸ hholds.endsIn
  configured := rfl
  channels target c hc := by cases hc

end Run

/-! ## Closed logs -/

namespace Backlog

/-- Nobody can register with a backlog whose log is closed. -/
def Shut (b : Backlog) : Prop := b.log.isClosed = true ∧ b.channels = []

variable {b : Backlog} {ps : List Packet}

theorem Shut.after (h : Shut b) {op : Operation} {b' : Backlog} (hbecomes : b.Becomes ps op b') :
    Shut b' := by
  have hnone : ∀ {target c}, b.channel? target = some c → False := by
    intro target c hc
    rw [channel?, h.2] at hc
    cases hc
  cases hbecomes with
  | idle hlog _ _ hchannels => exact ⟨hlog ▸ h.1, hchannels ▸ h.2⟩
  | touched hfound => exact (hnone hfound).elim
  | welcomed _ _ hopen =>
    rw [h.1] at hopen
    cases hopen
  | handed _ hfound => exact (hnone hfound).elim
  | @detached target _ _ hto =>
    refine ⟨hto.isClosed.trans h.1, ?_⟩
    show b.channels.erase target = []
    rw [h.2]
    rfl
  | compacted hto => exact ⟨hto.isClosed.trans h.1, h.2⟩
  | @refused n log hto =>
    refine ⟨hto.isClosed.trans h.1, ?_⟩
    show b.channels.mapValues _ = []
    rw [h.2]
    rfl
  | added hregistered => exact absurd h.2 hregistered
  | closed _ _ hclosed => exact ⟨hclosed, h.2⟩

end Backlog

/-! ## Lost packets -/

/-- The turn takes a packet from the log that `target` had not confirmed. -/
def Turn.Loses (target : String) (t : Turn) : Prop :=
  ∃ c, t.before.channel? target = some c ∧
    ∃ p ∈ t.before.log.packets, c.lastConfirmed < p.key ∧ p ∉ t.after.log.packets

namespace Backlog

/-- The channel of `target` is handed nothing, if it has one. -/
def Lost (target : String) (b : Backlog) : Prop :=
  ∀ c, b.channel? target = some c → c.resyncRequired = true

variable {b : Backlog} {ps : List Packet} {target : String}

theorem poll_of_lost (hholds : b.log.Holds ps) (h : Lost target b) (force : Bool) :
    ∃ e, (poll target force).perform b = (.error e, b) := by
  rcases poll_spec hholds target force with he | ⟨c, hc, -, hsynced, -⟩
  · exact he
  · rw [h c hc] at hsynced
    cases hsynced

theorem lost_withChannel {other : String} {c : SourceChannel} (h : Lost target b)
    (hc : other = target → c.resyncRequired = true) : Lost target (b.withChannel other c) := by
  intro d hd
  by_cases hsame : target = other
  · subst hsame
    rw [channel?_withChannel_self] at hd
    cases hd
    exact hc rfl
  · rw [channel?_withChannel_other hsame] at hd
    exact h d hd

theorem lost_discarded (h : Lost target b) (removed : List Packet) (log : PacketLog) :
    Lost target (b.discarded removed log) := by
  intro c' hc'
  rw [channel?_discarded] at hc'
  obtain ⟨c, hc, rfl⟩ := Option.map_eq_some_iff.1 hc'
  rcases SourceChannel.afterDiscard_cases c removed with heq | hlost
  · rw [heq]
    exact h c hc
  · exact hlost

theorem lost_extended (h : Lost target b) (p : Packet) (log : PacketLog) :
    Lost target (b.extended p log) := by
  intro c' hc'
  rw [channel?_extended] at hc'
  obtain ⟨c, hc, rfl⟩ := Option.map_eq_some_iff.1 hc'
  have hlost := h c hc
  simp only [SourceChannel.afterAdd]
  split <;> exact hlost

/-- Only a handshake gets a channel going again. -/
theorem Lost.after (h : Lost target b) {op : Operation} {b' : Backlog}
    (hbecomes : b.Becomes ps op b') (hstart : Turn.start? target ⟨b, op⟩ = none) :
    Lost target b' := by
  cases hbecomes with
  | idle _ _ _ hchannels =>
    intro c hc
    rw [channel?, hchannels] at hc
    exact h c hc
  | touched hfound hshifts =>
    exact lost_withChannel h fun hother => hshifts.lost (h _ (hother ▸ hfound))
  | welcomed _ _ _ _ hstarted =>
    refine lost_withChannel h fun hother => ?_
    rw [hother, hstart] at hstarted
    cases hstarted
  | handed _ hfound _ hsynced =>
    refine lost_withChannel h fun hother => ?_
    rw [h _ (hother ▸ hfound)] at hsynced
    cases hsynced
  | @detached other n log =>
    intro c hc
    by_cases hother : target = other
    · subst hother
      simp [channel?] at hc
    · rw [channel?, Table.get?_erase_other _ hother] at hc
      exact h c hc
  | compacted => exact h
  | refused => exact lost_discarded h _ _
  | added => exact lost_extended (lost_discarded h _ _) _ _
  | closed => exact h

theorem mem_take_of_not_mem_drop {p : Packet} {n : Nat} (hp : p ∈ ps) (hgone : p ∉ ps.drop n) :
    p ∈ ps.take n := by
  rw [← List.take_append_drop n ps] at hp
  rcases List.mem_append.1 hp with hp | hp
  · exact hp
  · exact absurd hp hgone

/-- How a packet can leave a log that stays open: with the last channel, after all have confirmed it,
or because an add takes its room, which leaves those lost that had not. -/
theorem Becomes.takes {op : Operation} {b' : Backlog} (h : b.Becomes ps op b')
    (hholds : b.log.Holds ps) (hclose : op ≠ .close) {p : Packet} (hp : p ∈ b.log.packets)
    (hgone : p ∉ b'.log.packets) :
    b'.channels = [] ∨ (∀ c ∈ b.channels.values, p.key ≤ c.lastConfirmed) ∨
      (∃ payload transient fromGateway, op = .add payload transient fromGateway) ∧
        b.settings.fullPolicy = .discardOldest ∧
        ∀ target c, b.channel? target = some c → c.lastConfirmed < p.key → Lost target b' := by
  have hopen : b.log.isClosed = false := by
    cases hclosed : b.log.isClosed with
    | false => rfl
    | true =>
      rw [PacketLog.packets_closed hclosed] at hp
      cases hp
  have htrimmed : ∀ {n log}, b'.log = log → b.log.TrimsTo (ps.drop n) log → p ∈ ps.take n := by
    intro n log hlog hto
    rw [hlog, hto.holds.packets (hto.isClosed.trans hopen)] at hgone
    rw [hholds.packets hopen] at hp
    exact mem_take_of_not_mem_drop hp hgone
  have hpolicy : ∀ {n}, p ∈ ps.take n → (b.settings.fullPolicy = .reject → n = 0) →
      b.settings.fullPolicy = .discardOldest := by
    intro n hremoved hspared
    cases hreject : b.settings.fullPolicy with
    | reject =>
      rw [hspared hreject] at hremoved
      cases hremoved
    | discardOldest => rfl
  have hdiscarded : ∀ {n log}, p ∈ ps.take n → ∀ target c, b.channel? target = some c →
      c.lastConfirmed < p.key → Lost target (b.discarded (ps.take n) log) := by
    intro n log hremoved target c hc hlost c' hc'
    rw [channel?_discarded, hc] at hc'
    cases hc'
    exact SourceChannel.resyncRequired_afterDiscard hremoved hlost
  cases h with
  | idle hlog =>
    rw [hlog] at hgone
    exact absurd hp hgone
  | touched | welcomed | handed => exact absurd hp hgone
  | @detached target n log hto hlast =>
    by_cases hnobody : b.channels.erase target = []
    · exact .inl hnobody
    · have hremoved := htrimmed rfl hto
      rw [hlast hnobody] at hremoved
      cases hremoved
  | compacted hto hconfirmed => exact .inr (.inl (hconfirmed p (htrimmed rfl hto)))
  | refused hto _ hasked hspared =>
    have hremoved := htrimmed rfl hto
    exact .inr (.inr ⟨hasked, hpolicy hremoved hspared, hdiscarded hremoved⟩)
  | @added _ _ _ n _ log' _ hto hholds' _ hopen' _ hasked _ hspared =>
    rw [hholds.packets hopen] at hp
    have hremoved : p ∈ ps.take n := mem_take_of_not_mem_drop hp fun hmem => hgone <| by
      show p ∈ log'.packets
      rw [hholds'.packets hopen']
      exact List.mem_append_left _ hmem
    exact .inr (.inr ⟨⟨_, _, _, hasked⟩, hpolicy hremoved hspared, fun target c hc hlost =>
      lost_extended (hdiscarded hremoved target c hc hlost) _ _⟩)
  | closed hasked => exact absurd hasked hclose

/-- A packet that leaves the log before its channel confirmed it leaves the channel lost. Only a
close takes the log out of reach without a word to the channels. -/
theorem lost_of_loses (hholds : b.log.Holds ps) {op : Operation}
    (hbecomes : b.Becomes ps op (op.after b)) (hclose : op ≠ .close)
    (h : Turn.Loses target ⟨b, op⟩) : Lost target (op.after b) := by
  obtain ⟨c, hc, p, hp, hlost, hgone⟩ := h
  rcases hbecomes.takes hholds hclose hp hgone with hnobody | hconfirmed | ⟨-, -, hdiscarded⟩
  · intro c' hc'
    rw [channel?, hnobody] at hc'
    cases hc'
  · have := hconfirmed c (Table.mem_values_of_get? hc)
    omega
  · exact hdiscarded target c hc hlost

end Backlog

/-! ## Whole runs -/

namespace Run

variable {settings : BacklogSettings} {history : List Packet} {start? : String → Option Nat}
  {delivered : String → List Packet} {target : String}

theorem turns_suffix_steps (r : Run) (ops : List Operation) : r.turns <:+ (r.steps ops).turns := by
  induction ops generalizing r with
  | nil => exact List.suffix_refl _
  | cons op ops ih => exact (List.suffix_cons _ _).trans (ih (r.step op))

/-- A channel stays lost until its next handshake. -/
theorem lost_steps {r : Run} (h : Coherent settings r.backlog history start? delivered)
    (hbatch : 1 ≤ settings.maxBatchSize) (hlost : Backlog.Lost target r.backlog) (ops : List Operation)
    (hkeys : (r.steps ops).backlog.nextKey < 2 ^ 64)
    (hstarts : ∀ t ∈ (r.steps ops).turns, t.start? target = none) :
    Backlog.Lost target (r.steps ops).backlog ∧ ∃ ps, (r.steps ops).backlog.log.Holds ps := by
  induction ops generalizing r history start? delivered with
  | nil =>
    obtain ⟨ps, hholds, -⟩ := h.logged.kept
    exact ⟨hlost, ps, hholds⟩
  | cons op ops ih =>
    have hkey : r.backlog.nextKey < 2 ^ 64 :=
      Nat.lt_of_le_of_lt (r.nextKey_le_steps (op :: ops)) hkeys
    have hstart : Turn.start? target ⟨r.backlog, op⟩ = none :=
      hstarts _ (((r.step op).turns_suffix_steps ops).subset (List.mem_cons_self ..))
    obtain ⟨ps, hholds, -⟩ := h.logged.kept
    exact ih (h.after hkey hbatch op) (hlost.after (Backlog.becomes_after hholds hkey op) hstart)
      hkeys hstarts

theorem shut_steps {r : Run} (h : Coherent settings r.backlog history start? delivered)
    (hbatch : 1 ≤ settings.maxBatchSize) (hshut : r.backlog.Shut) (ops : List Operation)
    (hkeys : (r.steps ops).backlog.nextKey < 2 ^ 64) : (r.steps ops).backlog.Shut := by
  induction ops generalizing r history start? delivered with
  | nil => exact hshut
  | cons op ops ih =>
    have hkey : r.backlog.nextKey < 2 ^ 64 :=
      Nat.lt_of_le_of_lt (r.nextKey_le_steps (op :: ops)) hkeys
    obtain ⟨ps, hholds, -⟩ := h.logged.kept
    exact ih (h.after hkey hbatch op) (hshut.after (Backlog.becomes_after hholds hkey op)) hkeys

end Run

/-! ## Polls -/

namespace Coherent

open Backlog

variable {settings : BacklogSettings} {b : Backlog} {history : List Packet}
  {start? : String → Option Nat} {delivered : String → List Packet}

/-- No batch is empty, or larger than a batch may be. -/
theorem batch_size (h : Coherent settings b history start? delivered)
    (hbatch : 1 ≤ settings.maxBatchSize) {target : String} {force : Bool} {batch : List Packet}
    (hpoll : ((Backlog.poll target force).perform b).1 = .ok (some batch)) :
    batch ≠ [] ∧ batch.length ≤ settings.maxBatchSize := by
  obtain ⟨ps, hholds, -⟩ := h.logged.kept
  rcases poll_spec hholds target force with ⟨e, he⟩ | ⟨c, hc, -, -,
    ⟨gone, -, -, he⟩ | ⟨key, -, -, -, hok⟩ | ⟨-, -, hok⟩ | ⟨cut, a, -, hcut, hok⟩⟩
  · rw [he] at hpoll
    cases hpoll
  · rw [he] at hpoll
    cases hpoll
  · rw [hok] at hpoll
    cases hempty : (b.batchFrom ps key).isEmpty with
    | true => simp [hempty] at hpoll
    | false =>
      simp only [hempty, Bool.false_eq_true, if_false, Except.ok.injEq, Option.some.injEq] at hpoll
      subst hpoll
      refine ⟨fun hnil => by simp [hnil] at hempty, ?_⟩
      rw [batchFrom, h.configured, List.length_take]
      exact Nat.min_le_left _ _
  · rw [hok] at hpoll
    cases hpoll
  · rw [hok] at hpoll
    cases hpoll
    obtain ⟨start, -, hin⟩ := h.channels target c hc
    obtain ⟨hne, hbatch', -, -⟩ := Accumulator.poll_eq_some hcut
    have hroom := hin.room
    have hsize : c.accumulator.maxSize = settings.maxBatchSize := by omega
    rw [hbatch', hsize]
    refine ⟨fun hnil => ?_, ?_⟩
    · rcases List.take_eq_nil_iff.1 hnil with hzero | hempty
      · omega
      · exact hne hempty
    · rw [List.length_take]
      exact Nat.min_le_left _ _

/-- A forced poll comes back with nothing only when nothing is owed. -/
theorem flush_none (h : Coherent settings b history start? delivered)
    (hbatch : 1 ≤ settings.maxBatchSize) {target : String} {start : Nat}
    (hstart : start? target = some start)
    (hpoll : ((Backlog.flush target).perform b).1 = .ok none) :
    delivered target = owed history start := by
  obtain ⟨ps, hholds, hkept⟩ := h.logged.kept
  have hnothing : ∀ {c}, b.channel? target = some c →
      (∀ s, InStep settings history b.nextKey s (delivered target) c →
        owed history (s + (delivered target).length) = []) → delivered target = owed history start := by
    intro c hc hnone
    obtain ⟨s, hs, hin⟩ := h.channels target c hc
    rw [hstart] at hs
    cases hs
    have hrest := hnone start hin
    obtain ⟨rest, hhanded⟩ := hin.handed
    rw [owed_add h.logged.keyed hin.first, ← hhanded, List.drop_left] at hrest
    rw [← hhanded, hrest, List.append_nil]
  rcases poll_spec hholds target true with ⟨e, he⟩ | ⟨c, hc, hactive, hsynced,
    ⟨gone, -, -, he⟩ | ⟨key, hcursor, hopen, hkey, hok⟩ | ⟨hlive, hcut, hok⟩ | ⟨cut, a, -, -, hok⟩⟩
  · rw [flush, he] at hpoll
    cases hpoll
  · rw [flush, he] at hpoll
    cases hpoll
  · rw [flush, hok] at hpoll
    refine hnothing hc fun s hin => ?_
    have hbatch' := (hin.read h.logged hholds hkept h.configured hbatch hactive hsynced hcursor
      hopen hkey).2
    cases hempty : (b.batchFrom ps key).isEmpty with
    | false => simp [hempty] at hpoll
    | true =>
      rw [List.isEmpty_iff] at hempty
      rw [hempty] at hbatch'
      rcases List.take_eq_nil_iff.1 hbatch'.symm with hzero | hnone
      · omega
      · exact hnone
  · refine hnothing hc fun s hin => ?_
    have hdue := hin.due hactive hsynced
    rw [hlive] at hdue
    simp only at hdue
    rw [← hdue]
    exact Accumulator.poll_forced_eq_none hcut
  · rw [flush, hok] at hpoll
    cases hpoll

end Coherent

/-- Over any log that came about by its own operations, in any run, and for any channel: what was
delivered in its epoch is what was logged from the epoch's start on, with nothing left out, twice
or out of order; batches are never empty or too large; a forced poll comes back empty only when
everything was delivered; and once a packet was lost before the channel confirmed it, every poll
fails until the next handshake. -/
theorem Backlog.delivered_gap_free {log : PacketLog} (hlog : log.Reachable)
    (membership : Membership) (settings : BacklogSettings) (hbatch : 1 ≤ settings.maxBatchSize)
    (ops : List Operation) (target : String) {c : SourceChannel}
    (hkeys : ((Backlog.ofLog membership settings log).run ops).backlog.nextKey < 2 ^ 64)
    (hc : ((Backlog.ofLog membership settings log).run ops).backlog.channel? target = some c) :
    let r := (Backlog.ofLog membership settings log).run ops
    ∃ start, Turn.startKey? target r.turns = some start ∧
      let due := owed (log.packets ++ Turn.appended r.turns) start
      due.map (·.key) = List.range' start (r.backlog.nextKey - start) ∧
      Turn.delivered target r.turns <+: due ∧
      (∀ force batch, ((Backlog.poll target force).perform r.backlog).1 = .ok (some batch) →
        batch ≠ [] ∧ batch.length ≤ settings.maxBatchSize) ∧
      (((Backlog.flush target).perform r.backlog).1 = .ok none →
        Turn.delivered target r.turns = due) ∧
      ∀ op later, op ≠ .close → Turn.Loses target ⟨r.backlog, op⟩ →
        let rest := (op.after r.backlog).run later
        (∀ t ∈ rest.turns, t.start? target = none) → rest.backlog.nextKey < 2 ^ 64 →
        ∀ force, ∃ e, ((Backlog.poll target force).perform rest.backlog).1 = .error e := by
  intro r
  obtain ⟨kept, hholds, -⟩ := hlog.holds
  have hfresh := Run.fits_start membership settings hholds
  have hfits : r.Fits settings kept := hfresh.steps hbatch ops hkeys
  have hkept : log.packets = kept := by
    cases hopen : log.isClosed with
    | false => exact hholds.packets hopen
    | true =>
      have hshut : r.backlog.Shut := Run.shut_steps hfresh hbatch ⟨hopen, rfl⟩ ops hkeys
      have hnone : r.backlog.channel? target = none := by
        rw [Backlog.channel?, hshut.2]
        rfl
      cases hnone.symm.trans hc
  obtain ⟨start, hstart, hin⟩ := hfits.channels target c hc
  refine ⟨start, hstart, ?_⟩
  rw [hkept]
  have hkeyed := hfits.logged.keyed
  refine ⟨?_, hin.handed, fun force batch hpoll => hfits.batch_size hbatch hpoll,
    fun hflush => hfits.flush_none hbatch hstart hflush, ?_⟩
  · have hlen := hfits.logged.length_le
    have hfirst := hin.first
    have hwithin := hin.within
    rw [keyedFrom_iff.1 (keyedFrom_owed hkeyed hfirst), length_owed hkeyed]
    congr 1
    omega
  · intro op later hclose hloses rest hstarts hkeys' force
    obtain ⟨ps, hps, -⟩ := hfits.logged.kept
    have hlost := Backlog.lost_of_loses hps (Backlog.becomes_after hps hkeys op) hclose hloses
    have hafter := hfits.after hkeys hbatch op
    obtain ⟨hlost', ps', hps'⟩ := Run.lost_steps (r := Run.start (op.after r.backlog)) hafter hbatch
      hlost later hkeys' hstarts
    obtain ⟨e, he⟩ := Backlog.poll_of_lost hps' hlost' force
    exact ⟨e, by rw [show rest.backlog = _ from rfl]; exact congrArg Prod.fst he⟩

/-- A target joins when three packets are there, and is handed two at a time while others come. -/
def Backlog.joining : List Operation :=
  let order := fun uid => Operation.add (.entry (.write ⟨"Order", uid, 1, [], none⟩)) false false
  [.handshake "audit" ⟨true, 0, none⟩, order "a", order "b", order "c",
    .handshake "backup" ⟨true, 0, none⟩, .poll "backup" true, order "d", .poll "backup" true,
    order "e", .poll "backup" true]

/-- A backlog with room for these five packets, after the first `n` operations. -/
def Backlog.joined (n : Nat) : Run :=
  (Backlog.ofLog (.openTo "orders") ⟨5, .discardOldest, 2, 1000, 1⟩
    (.memory (.empty "orders" none))).run (joining.take n)

/-- The first two batches come out of the log, the third one does not. All is delivered then, and the next
packet takes the place of one that was not confirmed. -/
theorem Backlog.delivered_gap_free_joined :
    let op : Operation := .add (.entry (.write ⟨"Order", "f", 1, [], none⟩)) false false
    Turn.startKey? "backup" (joined 10).turns = some 1 ∧
      ((joined 7).backlog.channel? "backup").map (·.cursor) = some (.catchingUp 3) ∧
      ((joined 10).backlog.channel? "backup").map (·.cursor) = some .live ∧
      ((joined 10).turns.reverse.filterMap (·.batch? "backup")).map (·.map (·.key))
        = [[1, 2], [3, 4], [5]] ∧
      Turn.delivered "backup" (joined 10).turns = Turn.appended (joined 10).turns ∧
      ∃ e, ((Backlog.poll "backup" true).perform (op.after (joined 10).backlog)).1 = .error e := by
  intro op
  have hsome : ((joined 10).backlog.channel? "backup").isSome = true := by decide +kernel
  have hstart : Turn.startKey? "backup" (joined 10).turns = some 1 := by decide +kernel
  obtain ⟨start, hstart', -, -, -, hall, hlost⟩ := delivered_gap_free (.memory "orders" none)
    (.openTo "orders") ⟨5, .discardOldest, 2, 1000, 1⟩ (by decide) (joining.take 10) "backup"
    (by decide +kernel) (Option.some_get hsome).symm
  obtain rfl : start = 1 := Option.some.inj (hstart'.symm.trans hstart)
  have hloses : Turn.Loses "backup" ⟨(joined 10).backlog, op⟩ :=
    ⟨((joined 10).backlog.channel? "backup").get (by decide +kernel), (Option.some_get _).symm,
      (joined 10).backlog.log.packets.head (by decide +kernel), List.head_mem _, by decide +kernel,
      by decide +kernel⟩
  have hdelivered : Turn.delivered "backup" (joined 10).turns = Turn.appended (joined 10).turns :=
    (hall (eq_ok_of_toOption (by decide +kernel))).trans (by decide +kernel)
  refine ⟨hstart, by decide +kernel, by decide +kernel, by decide +kernel, hdelivered,
    hlost op [] (by simp [op]) hloses ?_ (by decide +kernel) true⟩
  intro t ht
  cases ht

end GroupReplication
