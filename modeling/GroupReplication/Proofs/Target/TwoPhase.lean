/-
Transactions in two phases come to the same as transactions in one. On a channel over a copy in memory
that takes a log in order, from its first handshake on, what was prepared does nothing until it is
committed, and the copy is what the same log makes of it with every commit carrying its operations itself.

The transactions may overlap and use an id again, bulks may lie between them, and the connection may be
lost and resumed at any time: what is staged is kept, and what was held back comes again.
-/
import GroupReplication.Proofs.Target.Exact
import GroupReplication.Proofs.Target.Ledger

namespace GroupReplication

open GroupReplication.Action Packet

/-! ## The log in one phase -/

section OnePhase

variable (log : Nat → Packet) (start : Nat)

/-- The operations of the last phase of a transaction among the `count` packets from `start` on, if that
was to prepare them. -/
def preparedAfter (id : UInt64) : (count : Nat) → List EntryOperation
  | 0 => []
  | count + 1 =>
    match (log (start + count)).payload with
    | .transaction phase txn =>
      if txn.id = id then if phase = .prepare then txn.operations else [] else preparedAfter id count
    | _ => preparedAfter id count

/-- What the commit of a transaction at this key carries out. -/
def committedAt (key : Nat) (txn : Transaction) : List EntryOperation :=
  if txn.operations.isEmpty then preparedAfter log start txn.id (key - start) else txn.operations

/-- The packet at this key with nothing to prepare or to abort, and all to commit. -/
def onePhase (key : Nat) : Packet :=
  { log key with payload :=
      match (log key).payload with
      | .transaction .commit txn => .transaction .commit ⟨txn.id, committedAt log start key txn⟩
      | .transaction _ _ => .batch []
      | payload => payload }

end OnePhase

/-- A packet that is a phase of the transaction with this id. -/
def Packet.IsPhaseOf (id : UInt64) (p : Packet) : Prop :=
  ∃ phase txn, p.payload = .transaction phase txn ∧ txn.id = id

/-- A commit that carries out what was prepared at `prepared`: no phase of the transaction lies between
them. -/
structure CommitsAt (log : Nat → Packet) (prepared key : Nat) (txn : Transaction) : Prop where
  before : prepared < key
  prepares : (log prepared).payload = .transaction .prepare txn
  commits : (log key).payload = .transaction .commit ⟨txn.id, []⟩
  between : ∀ k, prepared < k → k < key → ¬ (log k).IsPhaseOf txn.id

section Lemmas

variable {log : Nat → Packet} {start : Nat} {id : UInt64}

/-- What is staged for a transaction is what its last phase prepared. -/
theorem get?_stagedAfter (log : Nat → Packet) (start : Nat) (id : UInt64) (count : Nat) :
    ((stagedAfter log start count).get? id).getD [] = preparedAfter log start id count := by
  induction count with
  | zero => rfl
  | succ count ih =>
    rw [stagedAfter, preparedAfter]
    cases hpayload : (log (start + count)).payload with
    | transaction phase txn =>
      by_cases hid : txn.id = id
      · cases phase <;> simp [Payload.effects, hid]
      · cases phase <;>
          simp [Payload.effects, hid, Table.get?_insert_other _ _ (Ne.symm hid),
            Table.get?_erase_other _ (Ne.symm hid), ih]
    | _ => exact ih

/-- Where nothing is staged, a commit carries out its own operations. -/
theorem effects_commit (txn : Transaction) :
    (Payload.transaction .commit txn).effects [] = (txn.operations.map .entry, []) := by
  cases hops : txn.operations <;> simp [Payload.effects, hops, Table.erase]

/-- In one phase the same effects become due, and nothing is ever staged. -/
theorem effects_onePhase (log : Nat → Packet) (start key : Nat) :
    (onePhase log start key).payload.effects [] = (dueAt log start key, []) := by
  rw [onePhase, dueAt, stagedBefore]
  cases hpayload : (log key).payload with
  | transaction phase txn =>
    cases phase with
    | commit =>
      have hprepared := get?_stagedAfter log start txn.id (key - start)
      rw [effects_commit, committedAt, ← hprepared]
      rfl
    | _ => rfl
  | _ => rfl

/-- What is prepared behind some packets was prepared by one of them, and no later one is a phase of that
transaction. -/
theorem preparedAfter_spec (log : Nat → Packet) (start : Nat) (id : UInt64) (count : Nat) :
    preparedAfter log start id count = [] ∨ ∃ key txn, start ≤ key ∧ key < start + count ∧
      (log key).payload = .transaction .prepare txn ∧ txn.id = id ∧
      preparedAfter log start id count = txn.operations ∧
      ∀ k, key < k → k < start + count → ¬ (log k).IsPhaseOf id := by
  induction count with
  | zero => exact .inl rfl
  | succ count ih =>
    have hother : ¬ (log (start + count)).IsPhaseOf id →
        preparedAfter log start id (count + 1) = preparedAfter log start id count := by
      intro hnot
      rw [preparedAfter]
      split
      · rename_i phase txn hpayload
        rw [if_neg fun hid => hnot ⟨phase, txn, hpayload, hid⟩]
      · rfl
    by_cases hphase : (log (start + count)).IsPhaseOf id
    · obtain ⟨phase, txn, hpayload, hid⟩ := hphase
      rw [preparedAfter, hpayload]
      simp only [hid, if_true]
      cases phase with
      | prepare =>
        exact .inr ⟨start + count, txn, by omega, by omega, hpayload, hid, rfl,
          fun k hlt hle => by omega⟩
      | commit => exact .inl rfl
      | abort => exact .inl rfl
    · rw [hother hphase]
      rcases ih with hnone | ⟨key, txn, hfirst, hlast, hpayload, hid, hops, hbetween⟩
      · exact .inl hnone
      · refine .inr ⟨key, txn, hfirst, by omega, hpayload, hid, hops, fun k hlt hle => ?_⟩
        by_cases hnew : k = start + count
        · rw [hnew]
          exact hphase
        · exact hbetween k hlt (by omega)

/-- A commit carries out what one earlier packet prepared for it, or nothing. -/
theorem committedAt_spec {key : Nat} (hstart : start ≤ key)
    (hcommit : (log key).payload = .transaction .commit ⟨id, []⟩) :
    committedAt log start key ⟨id, []⟩ = [] ∨ ∃ prepared txn, start ≤ prepared ∧ txn.id = id ∧
      CommitsAt log prepared key txn ∧ committedAt log start key ⟨id, []⟩ = txn.operations := by
  have hcarries : committedAt log start key ⟨id, []⟩ = preparedAfter log start id (key - start) := rfl
  rw [hcarries]
  rcases preparedAfter_spec log start id (key - start) with
    hnone | ⟨prepared, txn, hfirst, hlast, hpayload, rfl, hops, hbetween⟩
  · exact .inl hnone
  · exact .inr ⟨prepared, txn, hfirst, rfl, ⟨by omega, hpayload, hcommit,
      fun k hlt hle => hbetween k hlt (by omega)⟩, hops⟩

/-- What was prepared at one key is carried out at one other key only. -/
theorem CommitsAt.once {prepared key key' : Nat} {txn txn' : Transaction}
    (h : CommitsAt log prepared key txn) (h' : CommitsAt log prepared key' txn') : key = key' := by
  obtain rfl : txn = txn' := by
    have hsame := h.prepares.symm.trans h'.prepares
    cases hsame
    rfl
  rcases Nat.lt_trichotomy key key' with hlt | heq | hlt
  · exact absurd ⟨_, _, h.commits, rfl⟩ (h'.between key h.before hlt)
  · exact heq
  · exact absurd ⟨_, _, h'.commits, rfl⟩ (h.between key' h'.before hlt)

end Lemmas

/-! ## The work of a channel that takes the log in order -/

/-- The effects of a packet, with its key. -/
def Packet.keyedEffects (p : Packet) : List (Nat × Effect) :=
  (p.payload.effects []).1.map fun effect => (p.key, effect)

/-- The work on the packets up to a key: what is prepared is staged, the copy is what the log in one phase
makes of it, and the journal has just the effects of that, all settled. -/
structure WorksInOne {ρ : Type} (A : Applier ρ) (settings : ConflictSettings) (log : Nat → Packet)
    (start : Nat) (base : ρ) (key : Nat) (w : Work ρ) : Prop where
  le : start ≤ key + 1
  staged : w.staged = stagedBefore log start (key + 1)
  result : consumed A settings (upTo (onePhase log start) start key) base = ([], w.replica)
  journal : w.journal.map (fun e => (e.key, e.effect))
    = (upTo (onePhase log start) start key).flatMap Packet.keyedEffects
  settled : ∀ e ∈ w.journal, e.outcome.isSettled = true
  keys : ∀ e ∈ w.journal, e.key ≤ key
  told : ∀ k, start ≤ k → k ≤ key → settledAt w.journal k = dueAt log start k

theorem worksInOne_start {ρ : Type} {A : Applier ρ} {settings : ConflictSettings}
    (log : Nat → Packet) (base : ρ) {start key : Nat} (hkey : start = key + 1) :
    WorksInOne A settings log start base key ⟨[], base, []⟩ := by
  have hnone : upTo (onePhase log start) start key = [] := by
    rw [upTo, hkey, Nat.sub_self]
    rfl
  exact ⟨Nat.le_of_eq hkey, by rw [← hkey, stagedBefore_start], by rw [hnone]; rfl, by rw [hnone]; rfl,
    fun e he => absurd he List.not_mem_nil, fun e he => absurd he List.not_mem_nil,
    fun k hfirst hlast => by omega⟩

/-- Where no effect can fail, each packet takes the work one key further. -/
theorem progress_worksInOne {ρ : Type} {A : Applier ρ} {settings : ConflictSettings}
    {log : Nat → Packet} (hlog : ∀ k, (log k).key = k) (hfail : ¬ A.CanFail settings) (start : Nat)
    (base : ρ) : Progress A settings log (WorksInOne A settings log start base) where
  next {key w w'} h happlies := by
    have heffects := effects_onePhase log start (key + 1)
    have hdue : ((log (key + 1)).payload.effects w.staged) = (dueAt log start (key + 1),
        stagedBefore log start (key + 1 + 1)) := by
      rw [stagedBefore_succ (by have := h.le; omega), ← h.staged, dueAt, ← h.staged]
    cases happlies with
    | @intro replica entries hcarried =>
      rw [hdue] at hcarried ⊢
      cases hcarried with
      | settled hkeys horder hall =>
        have hnow : ∀ e ∈ entries, e.key = key + 1 := fun e he => (hkeys e he).trans (hlog _)
        refine ⟨by have := h.le; omega, rfl, ?_, ?_, ?_, ?_, ?_⟩
        · rw [upTo_succ h.le, consumed_concat, h.result, Packet.settle, heffects]
          rfl
        · rw [List.map_append, h.journal, upTo_succ h.le, List.flatMap_append, List.flatMap_singleton,
            Packet.keyedEffects, heffects, ← horder, List.map_map]
          congr 1
          refine List.map_congr_left fun e he => ?_
          rw [hkeys e he]
          rfl
        · intro e he
          rcases List.mem_append.1 he with he | he
          · exact h.settled e he
          · exact hall e he
        · intro e he
          rcases List.mem_append.1 he with he | he
          · exact Nat.le_succ_of_le (h.keys e he)
          · exact Nat.le_of_eq (hnow e he)
        · intro k hfirst hlast
          rw [settledAt_append]
          by_cases hk : k = key + 1
          · rw [hk, settledAt_all hnow hall, horder, settledAt_none fun e he => ?_, List.nil_append]
            exact Nat.ne_of_lt (Nat.lt_succ_of_le (h.keys e he))
          · rw [settledAt_other hnow hk, List.append_nil, h.told k hfirst (by omega)]
  broken _ happlies := absurd happlies.canFail hfail
  back hcan := absurd hcan hfail

/-! ## Calls in order -/

/-- The call brings packets of the log in their order, none that is confirmed, and no answer that discards
what the copy holds. What is not active refuses packets anyway. -/
def ChannelCall.InOrder (log : Nat → Packet) (r : Receiver Replica) : ChannelCall → Prop
  | consume p => p = log p.key ∧ (r.channel.state = .active → r.channel.lastConfirmed < p.key)
  | consumeBatch ps => (∀ p ∈ ps, p = log p.key) ∧ ∃ first, KeyedFrom first ps ∧
      (r.channel.state = .active → r.channel.lastConfirmed < first)
  | completeHandshake response => response.discardLocalState = false
  | _ => True

namespace Receiver

/-- Each call comes in order where the calls before it led. -/
def InOrder (log : Nat → Packet) : Receiver Replica → List ChannelCall → Prop
  | _, [] => True
  | r, call :: calls => call.InOrder log r ∧ InOrder log (call.after r) calls

/-- No call makes the channel active. -/
def Waits : Receiver Replica → List ChannelCall → Prop
  | _, [] => True
  | r, call :: calls => (call.after r).channel.state ≠ .active ∧ Waits (call.after r) calls

/-- A channel that takes a log in order, with a statement about the work that it confirmed. -/
structure Follows (settings : ConflictSettings) (log : Nat → Packet) (P : Nat → Work Replica → Prop)
    (r : Receiver Replica) : Prop where
  configured : r.channel.settings = settings
  received : Received log r.channel
  reached : P r.channel.lastConfirmed r.work

variable {settings : ConflictSettings} {log : Nat → Packet} {P : Nat → Work Replica → Prop}
  {r : Receiver Replica}

theorem Follows.consume (hP : Progress Replica.applier settings log P) (hlog : ∀ k, (log k).key = k)
    (h : r.Follows settings log P) {p : Packet} (hp : p = log p.key)
    (hnew : r.channel.state = .active → r.channel.lastConfirmed < p.key) :
    ((Receiver.consume Replica.applier p).perform r).2.Follows settings log P ∧
      ∀ key, ((Receiver.consume Replica.applier p).perform r).1 = .ok key →
        ((Receiver.consume Replica.applier p).perform r).2.channel.lastConfirmed ≤ p.key := by
  by_cases htakes : r.channel.Takes p
  · obtain ⟨r', hdone, hfollows, hbelow⟩ : ∃ r',
        (if p.key < r.channel.lastReceived + 1 then replay Replica.applier p
          else receiveNext Replica.applier p).perform r = (.ok (), r') ∧
          r'.Follows settings log P ∧ r'.channel.lastConfirmed ≤ p.key := by
      have hconfirmed := hnew htakes.active
      have hreached := htakes.reached
      split
      · -- it is held back
        refine ⟨r.countedAgain, ?_, ⟨h.configured, h.received.congr rfl rfl rfl, h.reached⟩,
          Nat.le_of_lt hconfirmed⟩
        rw [perform_replay hlog h.received (by omega), if_neg (fun hagain => by omega)]
        rfl
      · obtain ⟨result, r', hdone, hadvances, hreached, hok, herror⟩ :=
          receiveNext_spec hP hlog h.configured h.reached h.received
        rw [show r.channel.lastReceived + 1 = p.key by omega, ← hp] at hdone
        cases result with
        | error e => exact absurd (herror e rfl) Replica.not_canFail
        | ok u =>
          obtain ⟨hreceived, hlast⟩ := hok rfl
          have hle := hreceived.lastConfirmed_le
          exact ⟨r', hdone, ⟨hadvances.settings.trans h.configured, hreceived, hreached⟩, by omega⟩
    rw [perform_consume_of_takes htakes, hdone]
    exact ⟨hfollows, fun _ _ => hbelow⟩
  · obtain ⟨e, he⟩ := perform_consume_refused (A := Replica.applier) htakes
    rw [he]
    exact ⟨h, fun key hk => nomatch hk⟩

theorem Follows.consumeBatch (hP : Progress Replica.applier settings log P)
    (hlog : ∀ k, (log k).key = k) (h : r.Follows settings log P) {ps : List Packet}
    (hps : ∀ p ∈ ps, p = log p.key) {first : Nat} (hkeyed : KeyedFrom first ps)
    (hnew : r.channel.state = .active → r.channel.lastConfirmed < first) :
    ((Receiver.consumeBatch Replica.applier ps).perform r).2.Follows settings log P := by
  induction ps generalizing r first with
  | nil => exact h
  | cons p ps ih =>
    obtain ⟨hkey, hrest⟩ := hkeyed
    obtain ⟨hfollows, hbelow⟩ := h.consume hP hlog (hps p (List.mem_cons_self ..))
      (by rw [hkey]; exact hnew)
    rw [perform_consumeBatch_cons]
    rcases hdone : (Receiver.consume Replica.applier p).perform r with ⟨e | key, r'⟩
    · rw [hdone] at hfollows
      exact hfollows
    · rw [hdone] at hfollows hbelow
      exact ih hfollows (fun q hq => hps q (List.mem_cons_of_mem _ hq)) hrest fun _ => by
        have := hbelow key rfl
        show r'.channel.lastConfirmed < first + 1
        have hle : r'.channel.lastConfirmed ≤ p.key := this
        omega

/-- What one call in order leaves. -/
theorem Follows.after (hP : Progress Replica.applier settings log P) (hlog : ∀ k, (log k).key = k)
    (h : r.Follows settings log P) {call : ChannelCall} (horder : call.InOrder log r) :
    (call.after r).Follows settings log P := by
  cases call with
  | requestHandshake =>
    show (requestHandshake.perform r).2.Follows settings log P
    rcases requestHandshake_spec r with ⟨e, hdone⟩ | ⟨c, hdone, hstands, -, hreceived⟩
    · rw [hdone]
      exact h
    · rw [hdone]
      refine ⟨hstands.settings.trans h.configured, hreceived log h.received, ?_⟩
      show P c.confirmation.lastConfirmed ⟨c.staged, r.replica, r.journal⟩
      rw [hstands.confirmation, hstands.staged]
      exact h.reached
  | completeHandshake response =>
    show ((completeHandshake Replica.applier response).perform r).2.Follows settings log P
    rcases completeHandshake_spec Replica.applier response r with
      ⟨e, r', hdone, ⟨state, hsame, -⟩, hjournal, hreplica⟩ | ⟨r', hdone, haligned⟩
    · have hkept : r'.replica = r.replica := hreplica.resolve_right fun hdiscarded => by
        rw [show response.discardLocalState = false from horder] at hdiscarded
        exact nomatch hdiscarded.1
      rw [hdone]
      refine ⟨?_, ?_, ?_⟩
      · show r'.channel.settings = settings
        rw [hsame]
        exact h.configured
      · show Received log r'.channel
        rw [hsame]
        exact h.received.congr rfl rfl rfl
      · show P r'.channel.lastConfirmed ⟨r'.channel.staged, r'.replica, r'.journal⟩
        rw [hsame, hkept, hjournal]
        exact h.reached
    · obtain ⟨hstaged, hreplica, hconfirmed⟩ := haligned.resumed horder
      rw [hdone]
      refine ⟨haligned.settings.trans h.configured,
        .all haligned.bulk (haligned.last.trans haligned.confirmed.symm), ?_⟩
      show P r'.channel.lastConfirmed ⟨r'.channel.staged, r'.replica, r'.journal⟩
      rw [haligned.confirmed, ← hconfirmed, hstaged, hreplica, haligned.journal]
      exact h.reached
  | consume p => exact (h.consume hP hlog horder.1 horder.2).1
  | consumeBatch ps =>
    obtain ⟨hps, first, hkeyed, hnew⟩ := horder
    exact h.consumeBatch hP hlog hps hkeyed hnew
  | flushBulk =>
    show ((flushBulk Replica.applier).perform r).2.Follows settings log P
    obtain ⟨result, r', hdone, hadvances, hreached, hok, herror⟩ :=
      flushBulk_spec hP hlog h.configured h.reached h.received
    rw [hdone]
    cases result with
    | error e => exact absurd (herror e rfl) Replica.not_canFail
    | ok u =>
      obtain ⟨hbulk, hlast, hconfirmed⟩ := hok rfl
      exact ⟨hadvances.settings.trans h.configured, .all hbulk (hlast.trans hconfirmed.symm), hreached⟩
  | disconnect => exact ⟨h.configured, received_disconnected log r.channel, h.reached⟩
  | requireResync => exact ⟨h.configured, h.received.congr rfl rfl rfl, h.reached⟩

theorem Follows.calls (hP : Progress Replica.applier settings log P) (hlog : ∀ k, (log k).key = k)
    (h : r.Follows settings log P) {calls : List ChannelCall} (horder : r.InOrder log calls) :
    (r.calls calls).Follows settings log P := by
  induction calls generalizing r with
  | nil => exact h
  | cons call calls ih => exact ih (h.after hP hlog horder.1) horder.2

/-! ## Before the first handshake -/

/-- A channel that was never active has nothing. -/
structure Untouched (settings : ConflictSettings) (r : Receiver Replica) : Prop where
  configured : r.channel.settings = settings
  exact : r.channel.Exact
  idle : r.channel.state ≠ .active
  staged : r.channel.staged = []
  journal : r.journal = []

theorem Untouched.after (h : r.Untouched settings) {call : ChannelCall}
    (hidle : (call.after r).channel.state ≠ .active) : (call.after r).Untouched settings := by
  have hsame : call.after r = r → (call.after r).Untouched settings := fun heq => by
    rw [heq]
    exact h
  have hexact := (call.after_exact h.exact).1
  cases call with
  | requestHandshake =>
    rcases requestHandshake_spec r with ⟨e, hdone⟩ | ⟨c, hdone, hstands, -, -⟩
    · exact hsame (by rw [ChannelCall.after, hdone])
    · rw [ChannelCall.after, hdone] at hexact hidle ⊢
      exact ⟨hstands.settings.trans h.configured, hexact, hidle, hstands.staged.trans h.staged, h.journal⟩
  | completeHandshake response =>
    rcases completeHandshake_spec Replica.applier response r with
      ⟨e, r', hdone, ⟨state, hchannel, -⟩, hjournal, -⟩ | ⟨r', hdone, haligned⟩
    · rw [ChannelCall.after, hdone] at hexact hidle ⊢
      exact ⟨by rw [hchannel]; exact h.configured, hexact, hidle, by rw [hchannel]; exact h.staged,
        hjournal.trans h.journal⟩
    · rw [ChannelCall.after, hdone] at hidle
      exact absurd haligned.active hidle
  | consume p =>
    obtain ⟨e, hdone⟩ := perform_consume_refused (A := Replica.applier) (p := p)
      fun htakes => h.idle htakes.active
    exact hsame (by rw [ChannelCall.after, hdone])
  | consumeBatch ps =>
    cases ps with
    | nil => exact h
    | cons p ps =>
      obtain ⟨e, hdone⟩ := consumeBatch_refused (A := Replica.applier) (p := p) ps
        fun htakes => h.idle htakes.active
      exact hsame (by rw [ChannelCall.after, hdone])
  | flushBulk =>
    refine hsame ?_
    simp only [ChannelCall.after, flushBulk, perform_get_bind, h.exact.idle h.idle]
    rfl
  | disconnect => exact ⟨h.configured, hexact, hidle, h.staged, h.journal⟩
  | requireResync => exact ⟨h.configured, hexact, hidle, h.staged, h.journal⟩

theorem Untouched.calls (h : r.Untouched settings) {calls : List ChannelCall} (hwaits : r.Waits calls) :
    (r.calls calls).Untouched settings := by
  induction calls generalizing r with
  | nil => exact h
  | cons call calls ih => exact ih (h.after hwaits.1) hwaits.2

/-- A channel over a copy in memory takes a log in order from its first handshake on, whatever it was asked
before, and is asked to flush bulks, is cut off and resumes as often as may be. Its copy is what the first
handshake left of it with the confirmed packets applied in one phase, where nothing is prepared or aborted
and every commit carries what it commits. The journal has the effects of just these packets, each once and
in their order. And a commit without operations of its own carries out what one packet prepared for it, with
no other phase of the transaction in between, or nothing; what one packet prepared is never carried out by
two commits. -/
theorem two_phases_as_one (group source : String) (settings : ConflictSettings) (replica : Replica)
    (prior : List ChannelCall) (response : HandshakeResponse) (calls : List ChannelCall)
    (log : Nat → Packet) (hlog : ∀ k, (log k).key = k) :
    let r₀ := (fresh group source settings replica).calls prior
    let r₁ := (ChannelCall.completeHandshake response).after r₀
    let r := r₁.calls calls
    let start := response.startKey
    let done := upTo (onePhase log start) start r.channel.lastConfirmed
    (fresh group source settings replica).Waits prior → r₁.channel.state = .active →
    r₁.InOrder log calls →
    r.replica = (consumed Replica.applier settings done r₁.replica).2 ∧
    r.journal.map (fun e => (e.key, e.effect)) = done.flatMap Packet.keyedEffects ∧
    (∀ e ∈ r.journal, e.outcome.isSettled = true) ∧
    (∀ key id, start ≤ key → key ≤ r.channel.lastConfirmed →
      (log key).payload = .transaction .commit ⟨id, []⟩ →
      settledAt r.journal key = [] ∨ ∃ prepared txn, start ≤ prepared ∧ txn.id = id ∧
        CommitsAt log prepared key txn ∧ settledAt r.journal key = txn.operations.map .entry) ∧
    ∀ prepared key key' txn txn', CommitsAt log prepared key txn → CommitsAt log prepared key' txn' →
      key = key' := by
  intro r₀ r₁ r start done hwaits hactive horder
  have huntouched : r₀.Untouched settings := Untouched.calls ⟨rfl,
    (TargetChannel.settled_fresh group source settings).exact, (fun hstate => by cases hstate), rfl, rfl⟩
    hwaits
  obtain ⟨hstarted, hfollows⟩ : 1 ≤ start ∧ r₁.Follows settings log
      (WorksInOne Replica.applier settings log start r₁.replica) := by
    rcases completeHandshake_spec Replica.applier response r₀ with
      ⟨e, r', hdone, ⟨state, hsame, hstate⟩, -, -⟩ | ⟨r', hdone, haligned⟩
    · have hidle : r₁.channel.state ≠ .active := by
        show ((completeHandshake Replica.applier response).perform r₀).2.channel.state ≠ .active
        rw [hdone, hsame]
        rcases hstate with rfl | rfl
        · exact fun hstate => nomatch hstate
        · exact huntouched.idle
      exact absurd hactive hidle
    · have hr₁ : r₁ = r' := by
        show ((completeHandshake Replica.applier response).perform r₀).2 = r'
        rw [hdone]
      have hstaged : r'.channel.staged = [] := by
        cases hdiscard : response.discardLocalState with
        | true => exact (haligned.discarded hdiscard).1
        | false => exact (haligned.resumed hdiscard).1.trans huntouched.staged
      rw [hr₁]
      refine ⟨haligned.started, haligned.settings.trans huntouched.configured,
        .all haligned.bulk (haligned.last.trans haligned.confirmed.symm), ?_⟩
      rw [haligned.confirmed, work, hstaged, haligned.journal, huntouched.journal]
      exact worksInOne_start log r'.replica (by have := haligned.started; omega)
  have hworks := (hfollows.calls (progress_worksInOne hlog Replica.not_canFail start r₁.replica) hlog
    horder).reached
  refine ⟨?_, hworks.journal, hworks.settled, fun key id hfirst hlast hcommit => ?_,
    fun prepared key key' txn txn' h h' => h.once h'⟩
  · rw [hworks.result]
    rfl
  · have htold : settledAt r.journal key = (committedAt log start key ⟨id, []⟩).map .entry := by
      have hdue := effects_onePhase log start key
      rw [onePhase, hcommit] at hdue
      exact (hworks.told key hfirst hlast).trans
        ((congrArg Prod.fst hdue).symm.trans (congrArg Prod.fst (effects_commit _)))
    rw [htold]
    rcases committedAt_spec hfirst hcommit with hnone | ⟨prepared, txn, hprepared, hid, hcommits, hops⟩
    · exact .inl (by rw [hnone]; rfl)
    · exact .inr ⟨prepared, txn, hprepared, hid, hcommits, by rw [hops]⟩

/-- Two transactions that overlap, a bulk between them, and an id that is used again. -/
def overlapping (key : Nat) : Packet :=
  let write (uid : String) (bulk : Option UInt64) : EntryOperation := .write ⟨"Order", uid, 1, [], bulk⟩
  ⟨key, 1, false, false, match key with
    | 1 => .transaction .prepare ⟨7, [write "a" none]⟩
    | 2 => .transaction .prepare ⟨8, [write "b" none]⟩
    | 3 => .entry (write "c" (some 5))
    | 4 => .transaction .commit ⟨7, []⟩
    | 5 => .transaction .prepare ⟨7, [write "d" none]⟩
    | 6 => .transaction .abort ⟨8, []⟩
    | 7 => .transaction .commit ⟨8, []⟩
    | 8 => .transaction .prepare ⟨7, [write "e" none]⟩
    | 9 => .transaction .commit ⟨7, []⟩
    | _ => .transaction .commit ⟨7, []⟩⟩

/-- The connection is lost while the bulk is held back. -/
def cutInBulk : List ChannelCall :=
  [.consumeBatch [overlapping 1, overlapping 2, overlapping 3], .disconnect, .requestHandshake,
    .completeHandshake ⟨3, false, none⟩, .consumeBatch [overlapping 3, overlapping 4, overlapping 5],
    .consume (overlapping 6), .consume (overlapping 7), .consume (overlapping 8),
    .consume (overlapping 9), .consume (overlapping 10)]

/-- The replaced write of "d" and the aborted one of "b" never take place, that of "e" once. So the copy has
the entries "a", "c" and "e". -/
theorem two_phases_as_one_overlapping :
    let r := ((ChannelCall.completeHandshake ⟨1, true, none⟩).after
      ((fresh "orders" "primary" .standard (.empty false)).calls [.requestHandshake])).calls cutInBulk
    r.channel.lastConfirmed = 10 ∧
      r.journal.map (fun e => (e.key, e.effect)) = [(3, .entry (.write ⟨"Order", "c", 1, [], some 5⟩)),
        (4, .entry (.write ⟨"Order", "a", 1, [], none⟩)),
        (9, .entry (.write ⟨"Order", "e", 1, [], none⟩))] ∧
      r.replica = (consumed Replica.applier .standard
        ((List.range' 1 10).map (onePhase overlapping 1)) (.empty false)).2 ∧
      (∀ uid ∈ ["a", "c", "e"], (r.replica.entry? uid).isSome = true) ∧
      ∀ uid ∈ ["b", "d"], r.replica.entry? uid = none := by
  intro r
  have hcut : ((ChannelCall.completeHandshake ⟨1, true, none⟩).after
      ((fresh "orders" "primary" .standard (.empty false)).calls [.requestHandshake])).InOrder overlapping
        cutInBulk := by
    refine ⟨⟨?_, 1, ⟨rfl, rfl, rfl, trivial⟩, by decide +kernel⟩, trivial, trivial, rfl,
      ⟨?_, 3, ⟨rfl, rfl, rfl, trivial⟩, by decide +kernel⟩,
      ⟨rfl, by decide +kernel⟩, ⟨rfl, by decide +kernel⟩, ⟨rfl, by decide +kernel⟩,
      ⟨rfl, by decide +kernel⟩, ⟨rfl, by decide +kernel⟩, trivial⟩ <;>
    · intro p hp
      simp only [List.mem_cons, List.not_mem_nil, or_false] at hp
      rcases hp with rfl | rfl | rfl <;> rfl
  obtain ⟨hreplica, hjournal, -⟩ := two_phases_as_one "orders" "primary" .standard (.empty false)
    [.requestHandshake] ⟨1, true, none⟩ cutInBulk overlapping (fun _ => rfl)
    ⟨by decide +kernel, trivial⟩ (by decide +kernel) hcut
  have hconfirmed : (((ChannelCall.completeHandshake ⟨1, true, none⟩).after
      ((fresh "orders" "primary" .standard (.empty false)).calls [.requestHandshake])).calls
        cutInBulk).channel.lastConfirmed = 10 := by decide +kernel
  rw [hconfirmed] at hreplica hjournal
  exact ⟨hconfirmed, hjournal.trans (by decide +kernel), hreplica, by decide +kernel, by decide +kernel⟩

end Receiver

end GroupReplication
