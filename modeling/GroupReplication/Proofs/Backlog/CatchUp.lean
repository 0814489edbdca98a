/-
A channel that catches up reads the log batch by batch and goes live when nothing is left to read.
What it still has to read is the rest of the log from its cursor on (`Unread`), and each poll takes one
batch off its front. The exception is a batch size of 0: then a batch is empty although packets are
left, and an empty batch is taken for the end of the log.
-/
import GroupReplication.Proofs.Backlog.Covered
import GroupReplication.Proofs.Backlog.Handout

namespace GroupReplication

open Packet Log GroupReplication.Action

/-- The turn is a forced poll of `target` that succeeded. -/
def Turn.flushed (target : String) (t : Turn) : Bool :=
  match t.operation with
  | .poll name true => name = target ∧ ((Backlog.poll name true).perform t.before).1.isOk
  | _ => false

namespace Backlog

/-- What the channel of `target`, which gets all its packets from the log, has not read of it yet. -/
def Unread (b : Backlog) (target : String) (rest : List Packet) : Prop :=
  ∃ c, b.channel? target = some c ∧ c.state = .active ∧ c.resyncRequired = false ∧
    c.accumulator.packets = [] ∧
    match c.cursor with
    | .catchingUp key => b.log.earliest ≤ key ∧ owed b.log.packets key = rest
    | .live => rest = []

/-- What is unread after a batch: an empty batch is the last. -/
def unreadAfter (size : Nat) (rest : List Packet) : List Packet :=
  if size = 0 then [] else rest.drop size

variable {b : Backlog} {target : String} {rest : List Packet}

/-- Where a channel that reads on stands after a batch. -/
theorem cursorAfter_batch (h : b.log.Holds b.log.packets) (hopen : b.log.isClosed = false) {key : Nat}
    (hkey : b.log.earliest ≤ key) (size : Nat) :
    cursorAfter b.log.lastKey ((owed b.log.packets key).take size)
      = if size = 0 ∨ (owed b.log.packets key).length ≤ size then .live
        else .catchingUp (key + size) := by
  have hkeyed := h.keyed
  have hearliest := h.earliest hopen
  have hlength := length_owed hkeyed key
  have hle := h.length_le
  by_cases hnone : size = 0 ∨ owed b.log.packets key = []
  · have hbatch : (owed b.log.packets key).take size = [] := List.take_eq_nil_iff.2 hnone
    rw [hbatch, if_pos (hnone.imp_right fun hnil => by rw [hnil]; exact Nat.zero_le _)]
    rfl
  · simp only [not_or] at hnone
    have hpos := List.length_pos_iff.2 hnone.2
    have hne : b.log.packets ≠ [] := fun hnil => hnone.2 (by rw [hnil]; rfl)
    have hlast : b.log.lastKey = some (b.log.nextKey - 1) := by
      rw [h.lastKey hopen, hkeyed.getLast? hne]
      congr 1
      omega
    have htake := List.length_take (i := size) (l := owed b.log.packets key)
    rw [hlast, InStep.cursorAfter_of_keyed ((keyedFrom_owed hkeyed (by omega)).take size)
      (fun hnil => (List.take_eq_nil_iff.1 hnil).elim hnone.1 hnone.2) (by omega)]
    by_cases hall : (owed b.log.packets key).length ≤ size
    · rw [if_neg (by omega), if_pos (.inr hall)]
    · rw [if_pos (by omega), if_neg (not_or.2 ⟨hnone.1, hall⟩)]
      congr 1
      omega

/-- An answer without a batch says the same as one with an empty batch. -/
theorem getD_unlessEmpty (batch : List Packet) :
    (if batch.isEmpty then none else some batch).getD [] = batch := by
  cases batch <;> rfl

/-- A channel that reads the log gets what comes next in it. -/
theorem poll_reads (h : b.log.Holds b.log.packets) (hopen : b.log.isClosed = false)
    {c : SourceChannel} (hc : b.channel? target = some c) (hactive : c.state = .active)
    (hsynced : c.resyncRequired = false) {key : Nat} (hcursor : c.cursor = .catchingUp key)
    (hkey : b.log.earliest ≤ key) (force : Bool) :
    let batch := (owed b.log.packets key).take b.settings.maxBatchSize
    (poll target force).perform b = (.ok (if batch.isEmpty then none else some batch),
      b.withChannel target (b.caughtUp batch c)) := by
  have hbatch : b.batchFrom b.log.packets key
      = (owed b.log.packets key).take b.settings.maxBatchSize := by
    rw [batchFrom, dropWhile_eq_owed h.keyed]
  rw [poll_catchingUp hc hactive hsynced hcursor, catchUp_reads h hopen target c hkey, hbatch]

/-- Each poll hands out what comes next of the unread packets. -/
theorem Unread.poll (hunread : b.Unread target rest) (h : b.log.Holds b.log.packets)
    (hopen : b.log.isClosed = false) (force : Bool) :
    ∃ answer b', (Backlog.poll target force).perform b = (.ok answer, b') ∧
      answer.getD [] = rest.take b.settings.maxBatchSize ∧ b'.log = b.log ∧
      b'.settings = b.settings ∧ b'.Unread target (unreadAfter b.settings.maxBatchSize rest) := by
  obtain ⟨c, hc, hactive, hsynced, hempty, hdue⟩ := hunread
  cases hcursor : c.cursor with
  | live =>
    rw [hcursor] at hdue
    obtain rfl : rest = [] := hdue
    have hnothing : c.accumulator.poll b.now force = none := by
      have hpending : c.accumulator.pending = [] := List.map_eq_nil_iff.1 hempty
      simp [Accumulator.poll, Accumulator.isEmpty, hpending]
    refine ⟨none, b, poll_nothing hc hactive hsynced hcursor hnothing, List.take_nil.symm, rfl, rfl,
      c, hc, hactive, hsynced, hempty, ?_⟩
    rw [hcursor]
    show unreadAfter _ [] = []
    rw [unreadAfter, List.drop_nil, ite_self]
  | catchingUp key =>
    rw [hcursor] at hdue
    obtain ⟨hkey, rfl⟩ := hdue
    have hearliest := h.earliest hopen
    refine ⟨_, _, poll_reads h hopen hc hactive hsynced hcursor hkey force, getD_unlessEmpty _, rfl,
      rfl, _, channel?_withChannel_self .., hactive, hsynced, hempty, ?_⟩
    show match cursorAfter b.log.lastKey _ with
      | .catchingUp key' => b.log.earliest ≤ key' ∧ owed b.log.packets key' = _
      | .live => _ = []
    rw [cursorAfter_batch h hopen hkey, unreadAfter]
    by_cases hzero : b.settings.maxBatchSize = 0
    · rw [if_pos (.inl hzero), if_pos hzero]
    · rw [if_neg hzero]
      by_cases hall : (owed b.log.packets key).length ≤ b.settings.maxBatchSize
      · rw [if_pos (.inr hall)]
        exact List.drop_eq_nil_of_le hall
      · rw [if_neg (not_or.2 ⟨hzero, hall⟩)]
        exact ⟨Nat.le_trans hkey (Nat.le_add_right ..), owed_add h.keyed (hearliest ▸ hkey) _⟩

/-- What a poll adds to what was delivered. -/
theorem delivered_poll (turns : List Turn) (b : Backlog) (force : Bool)
    {answer : Option (List Packet)} (hok : ((Backlog.poll target force).perform b).1 = .ok answer) :
    Turn.delivered target (⟨b, .poll target force⟩ :: turns)
      = Turn.delivered target turns ++ answer.getD [] := by
  have hbatch : Turn.batch? target ⟨b, .poll target force⟩ = answer := by
    simp [Turn.batch?, hok, Except.toOption]
  rw [Turn.delivered_cons, hbatch]
  rfl

/-- So do polls in a row, until nothing is unread, and none of them fails. -/
theorem Unread.flushes {r : Run} {target : String} {rest : List Packet}
    (hunread : r.backlog.Unread target rest) (h : r.backlog.log.Holds r.backlog.log.packets)
    (hopen : r.backlog.log.isClosed = false) (n : Nat) :
    let r' := r.steps (List.replicate n (.poll target true))
    Turn.delivered target r'.turns = Turn.delivered target r.turns
        ++ rest.take (n * r.backlog.settings.maxBatchSize) ∧
      ∃ answer, ((flush target).perform r'.backlog).1 = .ok answer := by
  induction n generalizing r rest with
  | zero =>
    obtain ⟨answer, b', hok, -⟩ := hunread.poll h hopen true
    refine ⟨?_, answer, congrArg Prod.fst hok⟩
    rw [Nat.zero_mul, List.take_zero, List.append_nil]
    rfl
  | succ n ih =>
    obtain ⟨answer, b', hok, hanswer, hlog, hsettings, hunread'⟩ := hunread.poll h hopen true
    have hafter : (r.step (.poll target true)).backlog = b' := congrArg Prod.snd hok
    rw [← hafter] at hlog hsettings hunread'
    obtain ⟨hdelivered, hanswers⟩ := ih hunread' (by rw [hlog]; exact h) (by rw [hlog]; exact hopen)
    refine ⟨?_, hanswers⟩
    rw [List.replicate_succ]
    show Turn.delivered target ((r.step _).steps _).turns = _
    rw [hdelivered, hsettings]
    show Turn.delivered target (⟨r.backlog, _⟩ :: r.turns) ++ _ = _
    rw [delivered_poll r.turns r.backlog true (congrArg Prod.fst hok), hanswer, List.append_assoc,
      unreadAfter]
    split
    · rename_i hzero
      rw [hzero, Nat.mul_zero, Nat.mul_zero, List.take_zero, List.take_zero]
      rfl
    · rw [← List.take_add, Nat.add_comm, ← Nat.succ_mul]

end Backlog

/-! ## Whatever else is asked in between -/

namespace Turn

variable {target : String}

theorem delivered_append {later : List Turn} (h : ∀ t ∈ later, t.start? target = none)
    (turns : List Turn) :
    delivered target (later ++ turns) = delivered target turns ++ delivered target later := by
  induction later with
  | nil => exact (List.append_nil _).symm
  | cons t later ih =>
    rw [List.forall_mem_cons] at h
    rw [List.cons_append, delivered_cons, delivered_cons, h.1, ih h.2, List.append_assoc]
    rfl

theorem batch?_eq_some {t : Turn} {batch : List Packet} (h : t.batch? target = some batch) :
    ∃ force, t.operation = .poll target force ∧
      ((Backlog.poll target force).perform t.before).1 = .ok (some batch) := by
  rw [batch?] at h
  split at h
  · rename_i name force hasked
    split at h
    · subst name
      refine ⟨force, hasked, ?_⟩
      rw [Option.join_eq_some_iff] at h
      exact eq_ok_of_toOption h
    · cases h
  · cases h

theorem flushed_eq_true {t : Turn} (h : t.flushed target = true) :
    t.operation = .poll target true ∧
      ∃ answer, ((Backlog.poll target true).perform t.before).1 = .ok answer := by
  rw [flushed] at h
  split at h
  · rename_i name hasked
    obtain ⟨rfl, hok⟩ := of_decide_eq_true h
    exact ⟨hasked, eq_ok_of_isOk hok⟩
  · cases h

end Turn

namespace Run

variable {settings : BacklogSettings} {kept : List Packet} {target : String}

/-- A run that goes on shows what the run from there on shows. -/
theorem turns_steps (r : Run) (ops : List Operation) :
    (r.steps ops).turns = (r.backlog.run ops).turns ++ r.turns := by
  have hall : ∀ (b : Backlog) (turns : List Turn),
      (Run.steps ⟨b, turns⟩ ops).turns = (b.run ops).turns ++ turns := by
    induction ops with
    | nil => exact fun _ _ => rfl
    | cons op ops ih =>
      intro b turns
      show (Run.steps ⟨op.after b, ⟨b, op⟩ :: turns⟩ ops).turns
        = (Run.steps ⟨op.after b, [⟨b, op⟩]⟩ ops).turns ++ turns
      rw [ih, ih, List.append_assoc]
      rfl
  exact hall r.backlog r.turns

theorem backlog_steps (r : Run) (ops : List Operation) :
    (r.steps ops).backlog = (r.backlog.run ops).backlog := by
  have hall : ∀ (b : Backlog) (turns turns' : List Turn),
      (Run.steps ⟨b, turns⟩ ops).backlog = (Run.steps ⟨b, turns'⟩ ops).backlog := by
    induction ops with
    | nil => exact fun _ _ _ => rfl
    | cons op ops ih => exact fun b _ _ => ih (op.after b) _ _
  exact hall r.backlog r.turns []

/-- How far `target` has come in its epoch, which began at `first`, when it had been handed `done` at
some point, was owed `rest` of what was logged then, and was flushed `n` times since. -/
structure Keeps (settings : BacklogSettings) (kept : List Packet) (target : String) (first : Nat)
    (done rest : List Packet) (n : Nat) (r : Run) : Prop where
  fits : r.Fits settings kept
  start : Turn.startKey? target r.turns = some first
  logged : done ++ rest <+: owed (kept ++ Turn.appended r.turns) first
  delivered : Turn.delivered target r.turns <+: owed (kept ++ Turn.appended r.turns) first
  advanced : done.length + min n rest.length ≤ (Turn.delivered target r.turns).length

namespace Keeps

variable {r : Run} {first n : Nat} {done rest : List Packet}

/-- Each flush that succeeds takes it further, as long as `rest` was not handed out. -/
theorem step (h : r.Keeps settings kept target first done rest n) (hbatch : 1 ≤ settings.maxBatchSize)
    (hkey : r.backlog.nextKey < 2 ^ 64) {op : Operation}
    (hongoing : Turn.start? target ⟨r.backlog, op⟩ = none) :
    (r.step op).Keeps settings kept target first done rest
      (n + (Turn.flushed target ⟨r.backlog, op⟩).toNat) := by
  have hfits := h.fits.step hkey hbatch op
  have hstart : Turn.startKey? target (r.step op).turns = some first := by
    show Turn.startKey? target (⟨r.backlog, op⟩ :: r.turns) = _
    rw [Turn.startKey?_cons, hongoing, Option.none_or]
    exact h.start
  have hgrows : owed (kept ++ Turn.appended r.turns) first
      <+: owed (kept ++ Turn.appended (r.step op).turns) first := by
    show _ <+: owed (kept ++ (Turn.appended r.turns ++ _)) first
    rw [← List.append_assoc, owed, owed, List.filter_append _ (Turn.appended? _).toList]
    exact List.prefix_append _ _
  have hdelivered : Turn.delivered target (r.step op).turns
      = Turn.delivered target r.turns ++ (Turn.batch? target ⟨r.backlog, op⟩).getD [] := by
    show Turn.delivered target (⟨r.backlog, op⟩ :: r.turns) = _
    rw [Turn.delivered_cons, hongoing]
    rfl
  have hlength := congrArg List.length hdelivered
  rw [List.length_append] at hlength
  have hadvanced := h.advanced
  refine ⟨hfits, hstart, h.logged.trans hgrows, ?_, ?_⟩
  · cases hanswer : Turn.batch? target ⟨r.backlog, op⟩ with
    | none =>
      rw [hdelivered, hanswer, Option.getD_none, List.append_nil]
      exact h.delivered.trans hgrows
    | some batch =>
      obtain ⟨force, rfl, hok⟩ := Turn.batch?_eq_some hanswer
      obtain ⟨ps, hholds, -⟩ := h.fits.logged.kept
      obtain ⟨-, c', -, -, -, hc', -⟩ := Backlog.poll_ok hholds hok
      obtain ⟨start, hstart', hin⟩ := hfits.channels target c' hc'
      obtain rfl : first = start := Option.some.inj (hstart.symm.trans hstart')
      exact hin.handed
  · cases hflushed : Turn.flushed target ⟨r.backlog, op⟩ with
    | false =>
      rw [Bool.toNat_false]
      omega
    | true =>
      rw [Bool.toNat_true]
      obtain ⟨rfl, answer, hok⟩ := Turn.flushed_eq_true hflushed
      cases answer with
      | none =>
        have hall := h.fits.flush_none hbatch h.start hok
        have hle := h.logged.length_le
        rw [← hall, List.length_append] at hle
        omega
      | some batch =>
        have hne := List.length_pos_iff.2 (h.fits.batch_size hbatch hok).1
        have hanswer : Turn.batch? target ⟨r.backlog, .poll target true⟩ = some batch := by
          simp [Turn.batch?, hok, Except.toOption]
        rw [hanswer, Option.getD_some] at hlength
        omega

theorem steps (h : r.Keeps settings kept target first done rest n)
    (hbatch : 1 ≤ settings.maxBatchSize) (ops : List Operation)
    (hkeys : (r.steps ops).backlog.nextKey < 2 ^ 64)
    (hongoing : ∀ t ∈ (r.backlog.run ops).turns, t.start? target = none) :
    (r.steps ops).Keeps settings kept target first done rest
      (n + (r.backlog.run ops).turns.countP (·.flushed target)) := by
  induction ops generalizing r n with
  | nil => exact h
  | cons op ops ih =>
    have hturns : (r.backlog.run (op :: ops)).turns
        = (((r.step op).backlog.run ops)).turns ++ [⟨r.backlog, op⟩] :=
      turns_steps ((Run.start r.backlog).step op) ops
    rw [hturns, List.forall_mem_append, List.forall_mem_singleton] at hongoing
    have hkey : r.backlog.nextKey < 2 ^ 64 :=
      Nat.lt_of_le_of_lt (r.nextKey_le_steps (op :: ops)) hkeys
    have hsteps := ih (h.step hbatch hkey hongoing.2) hkeys hongoing.1
    have hone : [(⟨r.backlog, op⟩ : Turn)].countP (·.flushed target)
        = (Turn.flushed target ⟨r.backlog, op⟩).toNat := by
      rw [List.countP_singleton]
      cases Turn.flushed target ⟨r.backlog, op⟩ <;> rfl
    rw [hturns, List.countP_append, hone, Nat.add_comm (List.countP _ _), ← Nat.add_assoc]
    exact hsteps

end Keeps

/-- From any point of a run, what a channel still has to read is handed out in full once it was flushed
as often as there are packets of it. -/
theorem Fits.flushed {r : Run} (h : r.Fits settings kept) (hbatch : 1 ≤ settings.maxBatchSize)
    (hopen : r.backlog.log.isClosed = false) {c : SourceChannel}
    (hc : r.backlog.channel? target = some c) (hactive : c.state = .active)
    (hsynced : c.resyncRequired = false) {key : Nat} (hcursor : c.cursor = .catchingUp key)
    (hkey : r.backlog.log.earliest ≤ key) (later : List Operation)
    (hkeys : (r.backlog.run later).backlog.nextKey < 2 ^ 64)
    (hongoing : ∀ t ∈ (r.backlog.run later).turns, t.start? target = none)
    (hmany : (owed r.backlog.log.packets key).length
      ≤ (r.backlog.run later).turns.countP (·.flushed target)) :
    owed r.backlog.log.packets key <+: Turn.delivered target (r.backlog.run later).turns := by
  obtain ⟨ps, hholds, hkept⟩ := h.logged.kept
  obtain rfl := hholds.packets hopen
  obtain ⟨start, hstart, hin⟩ := h.channels target c hc
  have hkeyed := h.logged.keyed
  have hfirst := hin.first
  have hlen := h.logged.length_le
  obtain ⟨rfl, -⟩ : key = start + (Turn.delivered target r.turns).length ∧ _ := by
    have hdue := hin.due hactive hsynced
    rwa [hcursor] at hdue
  rw [hholds.earliest hopen, ← h.logged.next] at hkey
  have hrest : owed r.backlog.log.packets (start + (Turn.delivered target r.turns).length)
      = (owed (kept ++ Turn.appended r.turns) start).drop (Turn.delivered target r.turns).length := by
    rw [← dropWhile_eq_owed hholds.keyed, owed_of_kept hkeyed hkept (by omega), owed_add hkeyed hfirst]
  have hhanded := List.prefix_iff_eq_append.1 hin.handed
  have hkeeps : r.Keeps settings kept target start (Turn.delivered target r.turns)
      (owed r.backlog.log.packets (start + (Turn.delivered target r.turns).length)) 0 :=
    ⟨h, hstart, hrest ▸ hhanded.symm ▸ List.prefix_refl _, hin.handed,
      Nat.le_of_eq (by rw [Nat.zero_min, Nat.add_zero])⟩
  rw [← backlog_steps] at hkeys
  have hend := hkeeps.steps hbatch later hkeys hongoing
  have hadvanced := hend.advanced
  rw [Nat.zero_add, Nat.min_eq_right hmany, ← List.length_append] at hadvanced
  have hprefix := List.prefix_of_prefix_length_le hend.logged hend.delivered hadvanced
  rw [turns_steps, Turn.delivered_append hongoing] at hprefix
  exact (List.prefix_append_right_inj _).1 hprefix

end Run

namespace Backlog

/-- At any point of a run, over an open log whose keys start at 1 or later (see `Solvent`), take an
active channel that is catching up. If it has lost packets its polls fail and change nothing. Else every
poll hands out the next packets of the log, as many as a batch may have, and the channel goes live
exactly when these were all that was left, or a batch has no room at all; flushed again and again it is
handed all packets from its cursor on, batch by batch, if a batch has any room; and they come whatever
else is asked in between, as long as the flushes succeed and the target does not start over. -/
theorem catch_up_exact {log : PacketLog} (hlog : log.Reachable)
    (hnumbered : ∀ p ∈ log.packets, 1 ≤ p.key) (membership : Membership) (settings : BacklogSettings)
    (hmax : settings.maxWeight < 2 ^ 64) (ops : List Operation) (target : String) (key : Nat)
    {c : SourceChannel} :
    let b := ((Backlog.ofLog membership settings log).run ops).backlog
    let unread := b.log.packets.filter (key ≤ ·.key)
    b.nextKey < 2 ^ 64 → b.log.isClosed = false → b.channel? target = some c → c.state = .active →
    c.cursor = .catchingUp key →
    (c.resyncRequired = true → ∀ force, ∃ e, (poll target force).perform b = (.error e, b)) ∧
    (c.resyncRequired = false →
      (∀ force, ∃ answer c',
        ((poll target force).perform b).1 = .ok answer ∧
        answer.getD [] = unread.take settings.maxBatchSize ∧
        ((poll target force).perform b).2.channel? target = some c' ∧
        c'.cursor = if settings.maxBatchSize = 0 ∨ unread.length ≤ settings.maxBatchSize then .live
          else .catchingUp (key + settings.maxBatchSize)) ∧
      (∀ n, let r := b.run (List.replicate n (.poll target true))
        Turn.delivered target r.turns = unread.take (n * settings.maxBatchSize) ∧
          ∃ answer, ((flush target).perform r.backlog).1 = .ok answer) ∧
      (1 ≤ settings.maxBatchSize → ∀ later, let r := b.run later
        r.backlog.nextKey < 2 ^ 64 → (∀ t ∈ r.turns, t.start? target = none) →
        unread.length ≤ r.turns.countP (·.flushed target) →
        unread <+: Turn.delivered target r.turns)) := by
  intro b unread hkeys hopen hc hactive hcursor
  obtain ⟨hsound, hsettings⟩ : b.Sound ∧ b.settings = settings :=
    Run.sound_run (P := fun r => r.backlog.settings = settings) hlog hnumbered membership settings
      hmax rfl (Run.keeps_settings settings) ops hkeys hopen
  refine ⟨fun hlost force => ⟨_, poll_lost hc hactive hlost force⟩, fun hsynced => ?_⟩
  have hkey := hsound.earliest_le hc hactive hsynced hcursor
  have hempty : c.accumulator.packets = [] := by
    have hpoised := (hsound.solvent.channels target c hc).poised hactive hsynced
    rw [SourceChannel.Poised, hcursor] at hpoised
    exact hpoised.2
  have hunread : b.Unread target unread :=
    ⟨c, hc, hactive, hsynced, hempty, by rw [hcursor]; exact ⟨hkey, rfl⟩⟩
  refine ⟨fun force => ?_, fun n => ?_, fun hbatch later hkeys' hongoing hmany => ?_⟩
  · have hpoll := poll_reads hsound.holds hopen hc hactive hsynced hcursor hkey force
    rw [hsettings] at hpoll
    rw [hpoll]
    exact ⟨_, _, rfl, getD_unlessEmpty _, channel?_withChannel_self ..,
      cursorAfter_batch hsound.holds hopen hkey _⟩
  · rw [← hsettings]
    exact hunread.flushes (r := Run.start b) hsound.holds hopen n
  · obtain ⟨kept, hkept, -⟩ := hlog.holds
    have hfits := (Run.fits_start membership settings hkept).steps hbatch ops hkeys
    exact hfits.flushed hbatch hopen hc hactive hsynced hcursor hkey later hkeys' hongoing hmany

/-- What is asked of a backlog whose log had packets before its target came. -/
def joinedLate : List Operation :=
  [.handshake "auditor" ⟨true, 0, none⟩,
    .add (.entry (.write ⟨"Order", "a", 1, [], none⟩)) false false,
    .add (.entry (.write ⟨"Order", "b", 1, [], none⟩)) false false,
    .add (.entry (.write ⟨"Order", "c", 1, [], none⟩)) false false,
    .handshake "backup" ⟨true, 0, none⟩]

/-- Of three packets it gets two, stays behind them, and gets the third although another one comes. -/
theorem catch_up_exact_joinedLate :
    let b := ((Backlog.ofLog (.openTo "orders") ⟨10, .reject, 2, 1000, 1⟩
      (.memory (.empty "orders" none))).run joinedLate).backlog
    let r := b.run [.poll "backup" true,
      .add (.entry (.write ⟨"Order", "d", 1, [], none⟩)) false false, .poll "backup" true,
      .poll "backup" true]
    (∃ c', ((poll "backup" true).perform b).2.channel? "backup" = some c' ∧
      c'.cursor = .catchingUp 3) ∧
      b.log.packets.filter (1 ≤ ·.key) <+: Turn.delivered "backup" r.turns := by
  intro b r
  have hchannel : b.channel? "backup" = some ((b.channel? "backup").get (by decide +kernel)) :=
    (Option.some_get _).symm
  obtain ⟨-, hsynced⟩ := catch_up_exact (.memory "orders" none) (by decide +kernel)
    (.openTo "orders") ⟨10, .reject, 2, 1000, 1⟩ (by decide) joinedLate "backup" 1 (by decide +kernel)
    (by decide +kernel) hchannel (by decide +kernel) (by decide +kernel)
  obtain ⟨hpolls, -, hflushed⟩ := hsynced (by decide +kernel)
  obtain ⟨-, c', -, -, hc', hcursor⟩ := hpolls true
  exact ⟨⟨c', hc', hcursor.trans (by decide +kernel)⟩,
    hflushed (by decide) _ (by decide +kernel) (by decide +kernel) (by decide +kernel)⟩

/-- Where a batch has no room a channel goes live over a packet that it was not handed, and that no later
poll hands out. -/
theorem catch_up_abandons :
    ∃ (log : PacketLog) (membership : Membership) (settings : BacklogSettings) (ops : List Operation)
      (target : String) (c c' : SourceChannel) (key : Nat) (p : Packet),
      let b := ((Backlog.ofLog membership settings log).run ops).backlog
      log.Reachable ∧ b.log.isClosed = false ∧ b.nextKey < 2 ^ 64 ∧
        b.channel? target = some c ∧ c.state = .active ∧ c.resyncRequired = false ∧
        c.cursor = .catchingUp key ∧ p ∈ b.log.packets ∧ key ≤ p.key ∧
        ((poll target true).perform b).1.toOption = some none ∧
        ((poll target true).perform b).2.channel? target = some c' ∧ c'.cursor = .live ∧
        ∀ n, Turn.delivered target (b.run (List.replicate n (.poll target true))).turns = [] := by
  let settings : BacklogSettings := ⟨10, .reject, 0, 1000, 1⟩
  let ops : List Operation := [.handshake "backup" ⟨true, 0, none⟩,
    .add (.entry (.write ⟨"Order", "a", 1, [], none⟩)) false false]
  let b := ((Backlog.ofLog (.openTo "orders") settings (.memory (.empty "orders" none))).run ops).backlog
  have hchannel : b.channel? "backup" = some ((b.channel? "backup").get (by decide +kernel)) :=
    (Option.some_get _).symm
  have hcursor : ((b.channel? "backup").get (by decide +kernel)).cursor = .catchingUp 1 := by
    decide +kernel
  have hsound : b.Sound := (Run.sound_run (P := fun _ => True) (.memory "orders" none)
    (by decide +kernel) (.openTo "orders") settings (by decide) trivial (fun _ _ _ _ _ => trivial) ops
    (by decide +kernel) (by decide +kernel)).1
  have hunread : b.Unread "backup" (owed b.log.packets 1) :=
    ⟨_, hchannel, by decide +kernel, by decide +kernel, by decide +kernel, by
      rw [hcursor]; exact ⟨by decide +kernel, rfl⟩⟩
  refine ⟨.memory (.empty "orders" none), .openTo "orders", settings, ops, "backup", _, _, 1, _,
    .memory "orders" none, hsound.isOpen, hsound.keyLeft, hchannel, by decide +kernel,
    by decide +kernel, hcursor, List.head_mem (show b.log.packets ≠ [] by decide +kernel),
    by decide +kernel, by decide +kernel,
    (Option.some_get (show (((poll "backup" true).perform b).2.channel? "backup").isSome = true by
      decide +kernel)).symm, by decide +kernel, fun n => ?_⟩
  refine (hunread.flushes (r := Run.start b) hsound.holds hsound.isOpen n).1.trans ?_
  show [] ++ List.take (n * 0) _ = []
  rw [Nat.mul_zero, List.take_zero, List.append_nil]

end Backlog

end GroupReplication
