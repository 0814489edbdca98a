/-
Packets that come again after a target consumed them. Those that are held back and the phases of
transactions are passed over, all others are settled a second time. An entry is then as it was, unless
a commit that comes again had an operation on it behind one that came outside of any transaction: the
write of an entry that a commit took brings the entry back, and nothing takes it again.
-/
import GroupReplication.Proofs.Replica.Replay

namespace GroupReplication

open GroupReplication.Action

/-! ## The operations that packets bring -/

def Effect.operation? : Effect → Option EntryOperation
  | .entry op => some op
  | _ => none

/-- The payload is about entries, not about their types. -/
def Payload.ofEntries : Payload → Bool
  | .entry _ | .batch _ | .transaction .. => true
  | .typeIndex _ | .typeIntroduce _ => false

theorem Payload.effects_of_entries {p : Payload} (h : p.ofEntries = true) (staged : Staged) :
    ∃ ops : List EntryOperation, (p.effects staged).1 = ops.map .entry := by
  cases p with
  | entry op => exact ⟨[op], rfl⟩
  | batch ops => exact ⟨ops, rfl⟩
  | transaction phase txn =>
    cases phase with
    | prepare | abort => exact ⟨[], rfl⟩
    | commit => exact ⟨_, rfl⟩
  | typeIndex | typeIntroduce => cases h

theorem Payload.effects_of_plain {p : Payload} (h : p.isPhase = false) (staged staged' : Staged) :
    (p.effects staged).1 = (p.effects staged').1 := by
  cases p with
  | transaction => cases h
  | _ => rfl

/-- An operation as it reaches a copy, and whether a commit brings it. -/
structure Arrival extends FlaggedOperation where
  committed : Bool
  deriving Repr, DecidableEq

namespace Arrival

def operations (as : List Arrival) : List FlaggedOperation := as.map (·.toFlaggedOperation)

/-- Among the operations on an entry, none that a commit brings comes behind one that comes by
itself. -/
def CommitsFirst (uid : String) (as : List Arrival) : Prop :=
  (as.filter (·.op.uid = uid)).Pairwise fun a b => b.committed = true → a.committed = true

instance (uid : String) (as : List Arrival) : Decidable (CommitsFirst uid as) :=
  inferInstanceAs (Decidable (List.Pairwise _ _))

theorem operations_filter (uid : String) (as : List Arrival) :
    (operations as).filter (·.op.uid = uid) = operations (as.filter (·.op.uid = uid)) := by
  rw [operations, List.filter_map]
  rfl

theorem CommitsFirst.of_append {uid : String} {as bs : List Arrival}
    (h : CommitsFirst uid (as ++ bs)) : CommitsFirst uid as := by
  rw [CommitsFirst, List.filter_append] at h
  exact (List.pairwise_append.1 h).1

theorem CommitsFirst.split {uid : String} {as : List Arrival} (h : CommitsFirst uid as) :
    as.filter (·.op.uid = uid) = (as.filter (·.op.uid = uid)).filter (·.committed) ++
      (as.filter (·.op.uid = uid)).filter (!·.committed) := by
  unfold CommitsFirst at h
  generalize as.filter (·.op.uid = uid) = as at h
  induction as with
  | nil => rfl
  | cons a as ih =>
    obtain ⟨hfirst, hrest⟩ := List.pairwise_cons.1 h
    cases ha : a.committed with
    | true =>
      rw [List.filter_cons_of_pos ha, List.filter_cons_of_neg (by simp [ha]), List.cons_append,
        ← ih hrest]
    | false =>
      have hplain : ∀ b ∈ as, b.committed = false := fun b hb => by
        cases hcommitted : b.committed with
        | false => rfl
        | true => rw [hfirst b hb hcommitted] at ha; cases ha
      rw [List.filter_eq_nil_iff.2, List.filter_eq_self.2, List.nil_append]
      · intro b hb
        rcases List.mem_cons.1 hb with rfl | hb
        · simp [ha]
        · simp [hplain b hb]
      · intro b hb
        rcases List.mem_cons.1 hb with rfl | hb
        · simp [ha]
        · simp [hplain b hb]

end Arrival

namespace Packet

open Arrival (operations)

/-- The operations that a packet brings to a copy at once. -/
def arrivals (p : Packet) (staged : Staged) : List Arrival :=
  ((p.payload.effects staged).1.filterMap Effect.operation?).map fun op =>
    ⟨⟨op, p.transient⟩, p.payload.isPhase⟩

/-- What packets leave staged. -/
def stagedBy (ps : List Packet) (staged : Staged) : Staged :=
  ps.foldl (fun staged p => (p.payload.effects staged).2) staged

/-- The operations that packets bring to a copy one after the other. -/
def allArrivals : List Packet → Staged → List Arrival
  | [], _ => []
  | p :: ps, staged => p.arrivals staged ++ allArrivals ps (p.payload.effects staged).2

/-- The operations that a packet brings by itself. -/
def direct (p : Packet) : List FlaggedOperation :=
  if p.payload.isPhase then [] else operations (p.arrivals [])

variable {p : Packet} {ps qs : List Packet} {staged : Staged}

theorem operations_arrivals {ops : List EntryOperation}
    (h : (p.payload.effects staged).1 = ops.map .entry) :
    operations (p.arrivals staged) = ops.map (⟨·, p.transient⟩) := by
  have hops : (ops.map Effect.entry).filterMap Effect.operation? = ops := by
    rw [List.filterMap_map, show Effect.operation? ∘ Effect.entry = some from rfl,
      List.filterMap_some]
  rw [operations, arrivals, h, hops, List.map_map]
  rfl

theorem allArrivals_append :
    allArrivals (ps ++ qs) staged = allArrivals ps staged ++ allArrivals qs (stagedBy ps staged) := by
  induction ps generalizing staged with
  | nil => rfl
  | cons p ps ih => simp only [List.cons_append, allArrivals, ih, List.append_assoc]; rfl

/-- What holds of the operations of all packets from some point on holds of those among them that are
confirmed. -/
theorem commitsFirst_confirmed {uid : String} {key : Nat} (hkeyed : KeyedFrom key (ps ++ qs))
    (h : Arrival.CommitsFirst uid (allArrivals qs (stagedBy ps staged))) (confirmed : Nat) :
    Arrival.CommitsFirst uid (allArrivals (qs.filter (·.key ≤ confirmed))
      (stagedBy (ps.filter (·.key ≤ confirmed)) staged)) := by
  rcases hkeyed.filter_upTo_append confirmed with hnothing | hall
  · rw [hnothing]
    exact List.Pairwise.nil
  · obtain ⟨behind, hbehind⟩ := (keyedFrom_append.1 hkeyed).2.exists_behind confirmed
    rw [hbehind, allArrivals_append] at h
    rw [hall]
    exact h.of_append

theorem direct_arrivals : operations ((p.arrivals staged).filter (!·.committed)) = p.direct := by
  cases hphase : p.payload.isPhase with
  | true => simp [arrivals, direct, operations, hphase, List.filter_map, Function.comp_def]
  | false =>
    rw [direct, if_neg (by simp [hphase]), arrivals, arrivals, hphase,
      Payload.effects_of_plain hphase staged [], List.filter_eq_self.2]
    intro a ha
    obtain ⟨_, _, rfl⟩ := List.mem_map.1 ha
    rfl

theorem direct_allArrivals :
    operations ((allArrivals ps staged).filter (!·.committed)) = ps.flatMap direct := by
  induction ps generalizing staged with
  | nil => rfl
  | cons p ps ih =>
    rw [allArrivals, List.filter_append, operations, List.map_append, List.flatMap_cons]
    exact congr (congrArg _ direct_arrivals) ih

end Packet

/-! ## The two passes of a target whose calls cannot fail -/

section Passes

variable {ρ : Type} {A : Applier ρ} {settings : ConflictSettings} {log : Nat → Packet}

/-- A packet that comes again is settled again if it was confirmed and is no phase. -/
def Packet.settleAgain (A : Applier ρ) (settings : ConflictSettings) (confirmed : Nat) (replica : ρ)
    (p : Packet) : ρ :=
  if p.key ≤ confirmed ∧ p.payload.isPhase = false then (p.settle A settings ([], replica)).2
  else replica

theorem Packet.settle_plain {p : Packet} (h : p.payload.isPhase = false) (staged : Staged)
    (replica : ρ) : p.settle A settings (staged, replica) = (staged, (p.settle A settings ([], replica)).2) := by
  simp only [settle, Payload.effects_staged h, Payload.effects_of_plain h staged []]

namespace Receiver

theorem applyPacket_settles (hfail : ¬ A.CanFail settings) (p : Packet) {r : Receiver ρ}
    (hsettings : r.channel.settings = settings) : ∃ stats journal,
    (applyPacket A p).perform r = (.ok (), r.withWork
      ⟨(p.settle A settings (r.channel.staged, r.replica)).1,
        (p.settle A settings (r.channel.staged, r.replica)).2, journal⟩ stats) := by
  obtain ⟨result, stats, w, happly, happlies⟩ := applyPacket_spec A p r
  rw [hsettings] at happlies
  cases result with
  | error e => exact absurd happlies.canFail hfail
  | ok u =>
    cases happlies with
    | intro hcarried =>
      cases hcarried with
      | settled => exact ⟨stats, _, happly⟩

/-- The packets up to the confirmed key are settled in their order. -/
theorem consumeBatch_settles (hfail : ¬ A.CanFail settings) (hlog : ∀ k, (log k).key = k)
    {ps : List Packet} {r : Receiver ρ} (hsettings : r.channel.settings = settings)
    (hactive : r.channel.state = .active) (hnone : r.channel.bulk = none)
    (hlast : r.channel.lastReceived = r.channel.lastConfirmed)
    (hkeyed : Packet.KeyedFrom (r.channel.lastReceived + 1) ps)
    (hps : ps = (List.range' (r.channel.lastReceived + 1) ps.length).map log)
    (hnumbered : r.channel.lastReceived + ps.length < 2 ^ 64) :
    ∃ r', (consumeBatch A ps).perform r = (.ok r'.channel.lastConfirmed, r') ∧
      r.channel.Advances r'.channel ∧ Received log r'.channel ∧
      r'.channel.lastReceived = r.channel.lastReceived + ps.length ∧
      (r'.channel.staged, r'.replica) = (ps.filter (·.key ≤ r'.channel.lastConfirmed)).foldl
        (fun w p => p.settle A settings w) (r.channel.staged, r.replica) := by
  have hlisted : ∀ p ∈ ps, p = log p.key := by
    intro p hp
    rw [hps] at hp
    obtain ⟨k, -, rfl⟩ := List.mem_map.1 hp
    rw [hlog]
  have hstart : r.channel.lastReceived + 1 ≤ r.channel.lastConfirmed + 1 ∧
      (r.channel.staged, r.replica)
        = (upTo log (r.channel.lastReceived + 1) r.channel.lastConfirmed).foldl
          (fun w p => p.settle A settings w) (r.channel.staged, r.replica) := by
    refine ⟨by omega, ?_⟩
    rw [upTo, hlast, Nat.sub_self]
    rfl
  obtain ⟨r', hdone, hadvances, ⟨-, hresult⟩, hreceived, hreach⟩ := consumeBatch_next
    (progress_settles hfail (r.channel.staged, r.replica)) hfail hlog hlisted hsettings hstart
    (.all hnone hlast) hactive hkeyed hnumbered
  have hle := hreceived.lastConfirmed_le
  refine ⟨r', hdone, hadvances, hreceived, hreach, hresult.trans ?_⟩
  rw [hkeyed.filter_upTo, upTo, hps, ← List.map_take, List.take_range'_of_length_ge (by omega)]

/-- A packet that comes again leaves the channel as it was. -/
theorem consume_again (hfail : ¬ A.CanFail settings) (hlog : ∀ k, (log k).key = k) {p : Packet}
    {r : Receiver ρ} (hsettings : r.channel.settings = settings)
    (hactive : r.channel.state = .active) (hreceived : Received log r.channel)
    (hkey : p.key ≤ r.channel.lastReceived) (hnumbered : r.channel.lastReceived + 1 < 2 ^ 64) :
    ∃ stats journal, (consume A p).perform r = (.ok r.channel.lastConfirmed, r.withWork
      ⟨r.channel.staged, p.settleAgain A settings r.channel.lastConfirmed r.replica, journal⟩
      stats) := by
  rw [perform_consume_of_takes ⟨hactive, by omega, hnumbered⟩, if_pos (by omega),
    perform_replay hlog hreceived hkey, Packet.settleAgain]
  by_cases hagain : p.key ≤ r.channel.lastConfirmed ∧ p.payload.isPhase = false
  · obtain ⟨stats, journal, happly⟩ := applyPacket_settles hfail p (r := r.countedAgain) hsettings
    rw [if_pos hagain, if_pos hagain, happly, Packet.settle_plain hagain.2]
    exact ⟨stats, journal, rfl⟩
  · rw [if_neg hagain, if_neg hagain]
    exact ⟨_, r.journal, rfl⟩

theorem consumeBatch_again (hfail : ¬ A.CanFail settings) (hlog : ∀ k, (log k).key = k)
    {ps : List Packet} {r : Receiver ρ} (hsettings : r.channel.settings = settings)
    (hactive : r.channel.state = .active) (hreceived : Received log r.channel)
    (hkeys : ∀ p ∈ ps, p.key ≤ r.channel.lastReceived)
    (hnumbered : r.channel.lastReceived + 1 < 2 ^ 64) :
    ∃ stats journal, (consumeBatch A ps).perform r = (.ok r.channel.lastConfirmed, r.withWork
      ⟨r.channel.staged, ps.foldl (Packet.settleAgain A settings r.channel.lastConfirmed) r.replica,
        journal⟩ stats) := by
  induction ps generalizing r with
  | nil => exact ⟨r.channel.stats, r.journal, rfl⟩
  | cons p ps ih =>
    obtain ⟨stats, journal, hfirst⟩ := consume_again hfail hlog hsettings hactive hreceived
      (hkeys p (List.mem_cons_self ..)) hnumbered
    obtain ⟨stats', journal', hrest⟩ := ih (r := r.withWork _ stats) hsettings hactive
      (hreceived.congr rfl rfl rfl) (fun q hq => hkeys q (List.mem_cons_of_mem _ hq)) hnumbered
    rw [perform_consumeBatch_cons, hfirst]
    exact ⟨stats', journal', hrest⟩

end Receiver

end Passes

/-! ## Copies in memory -/

namespace Replica

open Packet (allArrivals stagedBy direct)
open Arrival (operations)

variable {settings : ConflictSettings} {r r' : Replica}

theorem applyAll_append {os os' : List FlaggedOperation} :
    r.applyAll (os ++ os') = r.applyAll os >>= applyAll os' := List.foldlM_append ..

theorem applyAgain_append {os os' : List FlaggedOperation} :
    r.applyAgain settings (os ++ os') = r.applyAgain settings os >>= applyAgain settings os' :=
  List.foldlM_append ..

theorem applyAll_arrivals {ps qs : List Packet} {staged : Staged} :
    r.applyAll (operations (allArrivals (ps ++ qs) staged))
      = r.applyAll (operations (allArrivals ps staged))
        >>= applyAll (operations (allArrivals qs (stagedBy ps staged))) := by
  rw [Packet.allArrivals_append, operations, List.map_append]
  exact applyAll_append

/-- Operations that all apply are applied when they are settled. -/
theorem settleAll_of_applyAll {ops : List EntryOperation} {transient : Bool}
    (h : r.applyAll (ops.map (⟨·, transient⟩)) = .ok r') :
    Effect.settleAll applier settings transient (ops.map .entry) r = r' := by
  induction ops generalizing r with
  | nil =>
    cases h
    rfl
  | cons op ops ih =>
    obtain ⟨r₁, hfirst, hrest⟩ := bind_eq_ok (List.foldlM_cons.symm.trans h)
    have hsettle : Effect.settle applier settings transient (.entry op) r = (.applied, r₁) :=
      settle_of_ok hfirst
    refine Eq.trans ?_ (ih hrest)
    rw [List.map_cons, Effect.settleAll, List.foldl_cons, hsettle]
    rfl

theorem applyAgain_settleAll (ops : List EntryOperation) (transient : Bool) (r : Replica) :
    r.applyAgain settings (ops.map (⟨·, transient⟩))
      = some (Effect.settleAll applier settings transient (ops.map .entry) r) := by
  induction ops generalizing r with
  | nil => rfl
  | cons op ops ih =>
    have hsettled := isSettled_applier settings (.entry op) transient r
    simp only [applyAgain, List.map_cons, List.foldlM_cons, if_pos hsettled]
    exact ih _

/-- What packets whose operations all apply make of a copy. -/
theorem settle_of_applyAll {ps : List Packet} (hentries : ∀ p ∈ ps, p.payload.ofEntries = true)
    {staged : Staged} (h : r.applyAll (operations (allArrivals ps staged)) = .ok r') :
    ps.foldl (fun w p => p.settle applier settings w) (staged, r) = (stagedBy ps staged, r') := by
  induction ps generalizing staged r with
  | nil =>
    cases h
    rfl
  | cons p ps ih =>
    rw [allArrivals, operations, List.map_append, applyAll_append] at h
    obtain ⟨r₁, hfirst, hrest⟩ := bind_eq_ok h
    have hsettle : p.settle applier settings (staged, r) = ((p.payload.effects staged).2, r₁) := by
      obtain ⟨ops, hops⟩ := Payload.effects_of_entries (hentries p (List.mem_cons_self ..)) staged
      rw [← operations, Packet.operations_arrivals hops] at hfirst
      rw [Packet.settle, hops, settleAll_of_applyAll hfirst]
    rw [List.foldl_cons, hsettle]
    exact ih (fun q hq => hentries q (List.mem_cons_of_mem _ hq)) hrest

/-- What packets that come again make of a copy is what the operations make of it that come by
themselves and were confirmed. -/
theorem applyAgain_direct (settings : ConflictSettings) {ps : List Packet}
    (hentries : ∀ p ∈ ps, p.payload.ofEntries = true)
    (confirmed : Nat) (r : Replica) :
    r.applyAgain settings ((ps.filter (·.key ≤ confirmed)).flatMap direct)
      = some (ps.foldl (Packet.settleAgain applier settings confirmed) r) := by
  induction ps generalizing r with
  | nil => rfl
  | cons p ps ih =>
    have hrest := ih fun q hq => hentries q (List.mem_cons_of_mem _ hq)
    rw [List.foldl_cons, ← hrest]
    by_cases hkey : p.key ≤ confirmed
    · rw [List.filter_cons_of_pos (by simpa using hkey), List.flatMap_cons, applyAgain_append]
      suffices hone : r.applyAgain settings p.direct
          = some (p.settleAgain applier settings confirmed r) by
        rw [hone]
        rfl
      cases hphase : p.payload.isPhase with
      | true =>
        rw [direct, if_pos hphase, Packet.settleAgain, if_neg (by simp [hphase])]
        rfl
      | false =>
        obtain ⟨ops, hops⟩ := Payload.effects_of_entries (hentries p (List.mem_cons_self ..)) []
        rw [direct, if_neg (by simp [hphase]), Packet.settleAgain, if_pos ⟨hkey, hphase⟩,
          Packet.operations_arrivals hops, Packet.settle, hops, applyAgain_settleAll]
    · rw [List.filter_cons_of_neg (by simpa using hkey), Packet.settleAgain,
        if_neg fun h => hkey h.1]

/-- An entry is as it was once the operations on it that come by themselves were brought again, if
none that a commit brought stands behind one of them. -/
theorem entry?_again {as : List Arrival} (hunlocked : r.locks = [])
    (hrises : ∀ a ∈ as, a.op.Rises) (happlied : r.applyAll (operations as) = .ok r') :
    ∃ again, r'.applyAgain settings (operations (as.filter (!·.committed))) = some again ∧
      ∀ uid, Arrival.CommitsFirst uid as → again.entry? uid = r'.entry? uid := by
  obtain ⟨hadmits, hfirst⟩ := resultAll_of_applyAll hunlocked happlied
  obtain ⟨entries, rfl⟩ := applyAll_ok happlied
  have hplain : r.Admits (operations (as.filter (!·.committed))) := hadmits.mono fun o ho => by
    obtain ⟨a, ha, rfl⟩ := List.mem_map.1 ho
    exact List.mem_map_of_mem (List.mem_filter.1 ha).1
  obtain ⟨again, hagain, hentries⟩ := applyAgain_eq settings (hplain.withEntries entries)
  refine ⟨again, hagain, fun uid hcommits => ?_⟩
  -- the operations on the entry are those of commits, and then those that come again
  have hsplit := hfirst uid
  rw [Arrival.operations_filter, hcommits.split, operations, List.map_append,
    FlaggedOperation.resultAll?, List.foldlM_append] at hsplit
  obtain ⟨stored, -, hbehind⟩ := Option.bind_eq_some_iff.1 hsplit
  have hplace : (as.filter (!·.committed)).filter (·.op.uid = uid)
      = (as.filter (·.op.uid = uid)).filter (!·.committed) := by
    simp only [List.filter_filter, Bool.and_comm]
  rw [hentries uid, Arrival.operations_filter, hplace]
  refine FlaggedOperation.Trails.ahead.settledAll_eq (fun o ho => ?_) hbehind
  obtain ⟨a, ha, rfl⟩ := List.mem_map.1 ho
  exact hrises a (List.mem_filter.1 (List.mem_filter.1 ha).1).1

end Replica

namespace Receiver

open Packet (allArrivals stagedBy)
open Arrival (operations CommitsFirst)

/-- A target consumes packets whose operations all apply, and then consumes them again from any of them
on, where the key behind the last is still one of 64 bits. The channel stays as it was, its counts apart.
The operations that come by themselves and were confirmed are settled again. An entry stays as it was if,
among the operations on it that come again, none that a commit brings stands behind one that comes by
itself. -/
theorem consumed_again {r : Receiver Replica} {before suffix : List Packet} {final : Replica}
    (hactive : r.channel.state = .active) (hnone : r.channel.bulk = none)
    (hlast : r.channel.lastReceived = r.channel.lastConfirmed) (hunlocked : r.replica.locks = [])
    (hkeyed : Packet.KeyedFrom (r.channel.lastReceived + 1) (before ++ suffix))
    (hnext : r.channel.lastReceived + (before ++ suffix).length + 1 < 2 ^ 64)
    (hentries : ∀ p ∈ before ++ suffix, p.payload.ofEntries = true)
    (hrises : ∀ a ∈ allArrivals (before ++ suffix) r.channel.staged, a.op.Rises)
    (happlied : r.replica.applyAll (operations (allArrivals (before ++ suffix) r.channel.staged))
      = .ok final) :
    ∃ key r₁ r₂, (consumeBatch Replica.applier (before ++ suffix)).perform r = (.ok key, r₁) ∧
      (consumeBatch Replica.applier suffix).perform r₁ = (.ok key, r₂) ∧
      r₂.channel = { r₁.channel with stats := r₂.channel.stats } ∧
      r₁.replica.applyAgain r.channel.settings ((suffix.filter (·.key ≤ key)).flatMap Packet.direct)
        = some r₂.replica ∧
      ∀ uid, CommitsFirst uid (allArrivals suffix (stagedBy before r.channel.staged)) →
        r₂.replica.entry? uid = r₁.replica.entry? uid := by
  obtain ⟨log, hlog, hps⟩ := hkeyed.exists_log
  obtain ⟨r₁, hfirst, hadvances, hreceived, hreach, hresult⟩ := consumeBatch_settles
    Replica.not_canFail hlog rfl hactive hnone hlast hkeyed hps (by omega)
  have hreached : ∀ p ∈ suffix, p.key ≤ r₁.channel.lastReceived := fun p hp => by
    have := (hkeyed.bounds (List.mem_append_right before hp)).2
    omega
  obtain ⟨stats, journal, hagain⟩ := consumeBatch_again Replica.not_canFail hlog hadvances.settings
    (hadvances.state.trans hactive) hreceived hreached (by rw [hreach]; exact hnext)
  have hdirect := Replica.applyAgain_direct r.channel.settings
    (fun p hp => hentries p (List.mem_append_right _ hp)) r₁.channel.lastConfirmed r₁.replica
  refine ⟨r₁.channel.lastConfirmed, r₁, _, hfirst, hagain, rfl, hdirect, fun uid hcommits => ?_⟩
  -- the first pass settled the packets up to the confirmed key, whose operations all applied
  obtain ⟨rest, hrest⟩ := hkeyed.exists_behind r₁.channel.lastConfirmed
  rw [hrest, Replica.applyAll_arrivals] at happlied
  obtain ⟨middle, hconfirmed, -⟩ := bind_eq_ok happlied
  have hcopy := hresult.trans (Replica.settle_of_applyAll
    (fun p hp => hentries p (List.mem_filter.1 hp).1) hconfirmed)
  obtain rfl : r₁.replica = middle := (Prod.mk.inj hcopy).2
  -- and those among them that come again applied behind the others
  rw [List.filter_append, Replica.applyAll_arrivals] at hconfirmed
  obtain ⟨start, hbefore, hsuffix⟩ := bind_eq_ok hconfirmed
  obtain ⟨_, rfl⟩ := Replica.applyAll_ok hbefore
  rw [hrest, List.filter_append, Packet.allArrivals_append, Packet.allArrivals_append] at hrises
  obtain ⟨again, hsettled, hkept⟩ := Replica.entry?_again (by exact hunlocked)
    (fun a ha => hrises a (List.mem_append_left _ (List.mem_append_right _ ha))) hsuffix
  rw [Packet.direct_allArrivals] at hsettled
  obtain rfl := Option.some.inj (hsettled.symm.trans hdirect)
  exact hkept uid (Packet.commitsFirst_confirmed hkeyed hcommits _)

/-- A target of an empty group, right after the handshake. -/
def ready (settings : ConflictSettings) : Receiver Replica :=
  ((requestHandshake >>= fun _ => completeHandshake Replica.applier ⟨1, true, none⟩).perform
    ⟨.fresh "orders" "primary" settings, .empty false, []⟩).2

/-- A transaction whose commit updates an entry that was written before it, among other packets; the
last one is held back. -/
def mixed : List Packet :=
  [⟨2, 1, false, false, .transaction .prepare
      ⟨7, [.update ⟨"Order", "a", 2, [], none⟩, .write ⟨"Order", "b", 1, [], none⟩]⟩⟩,
    ⟨3, 1, true, false, .batch
      [.write ⟨"Order", "c", 5, [], none⟩, .take ⟨"Order", "c", 5, [], none⟩,
        .write ⟨"Order", "c", 1, [], none⟩]⟩,
    ⟨4, 1, false, false, .transaction .commit ⟨7, []⟩⟩,
    ⟨5, 1, false, false, .entry (.change ⟨"Order", "a", 2, 4, [("state", [1])], none⟩)⟩,
    ⟨6, 1, false, false, .entry (.write ⟨"Order", "d", 1, [], some 9⟩)⟩]

theorem consumed_again_mixed :
    let first : List Packet := [⟨1, 1, false, false, .entry (.write ⟨"Order", "a", 1, [], none⟩)⟩]
    let r := ready ⟨.centralStore, .debug, .info⟩
    let final : Replica := { Replica.empty false with
      entries := [("a", ⟨"Order", 4, [], [("state", [1])], false⟩), ("c", ⟨"Order", 1, [], [], true⟩),
        ("b", ⟨"Order", 1, [], [], false⟩), ("d", ⟨"Order", 1, [], [], false⟩)] }
    r.channel.state = .active ∧ r.channel.bulk = none ∧
      r.channel.lastReceived = r.channel.lastConfirmed ∧ r.replica.locks = [] ∧
      Packet.KeyedFrom (r.channel.lastReceived + 1) (first ++ mixed) ∧
      r.channel.lastReceived + (first ++ mixed).length + 1 < 2 ^ 64 ∧
      (∀ p ∈ first ++ mixed, p.payload.ofEntries = true) ∧
      (∀ a ∈ allArrivals (first ++ mixed) r.channel.staged, a.op.Rises) ∧
      r.replica.applyAll (operations (allArrivals (first ++ mixed) r.channel.staged)) = .ok final ∧
      ∃ key r₁ r₂, (consumeBatch Replica.applier (first ++ mixed)).perform r = (.ok key, r₁) ∧
        (consumeBatch Replica.applier mixed).perform r₁ = (.ok key, r₂) ∧
        r₂.channel = { r₁.channel with stats := r₂.channel.stats } ∧
        r₁.replica.applyAgain r.channel.settings ((mixed.filter (·.key ≤ key)).flatMap Packet.direct)
          = some r₂.replica ∧
        ∀ uid ∈ ["a", "b", "c"], r₂.replica.entry? uid = r₁.replica.entry? uid := by
  intro first r final
  have hkeyed : Packet.KeyedFrom (r.channel.lastReceived + 1) (first ++ mixed) :=
    ⟨rfl, rfl, rfl, rfl, rfl, rfl, trivial⟩
  have hentries : ∀ p ∈ first ++ mixed, p.payload.ofEntries = true := by decide
  have hrises : ∀ a ∈ allArrivals (first ++ mixed) r.channel.staged, a.op.Rises := by decide +kernel
  have happlied : r.replica.applyAll (operations (allArrivals (first ++ mixed) r.channel.staged))
      = .ok final := by decide +kernel
  have hcommits : ∀ uid ∈ ["a", "b", "c"],
      CommitsFirst uid (allArrivals mixed (stagedBy first r.channel.staged)) := by decide +kernel
  obtain ⟨key, r₁, r₂, hfirst, hagain, hchannel, hdirect, hkept⟩ :=
    consumed_again (r := r) rfl rfl rfl rfl hkeyed (by decide) hentries hrises happlied
  exact ⟨rfl, rfl, rfl, rfl, hkeyed, by decide, hentries, hrises, happlied, key, r₁, r₂, hfirst,
    hagain, hchannel, hdirect, fun uid huid => hkept uid (hcommits uid huid)⟩

/-- A commit takes an entry that was written by itself. When the two packets come again, the write
brings the entry back and the commit is passed over. -/
theorem written_again :
    let history : List Packet := [⟨1, 1, false, false, .entry (.write ⟨"Order", "a", 1, [], none⟩)⟩,
      ⟨2, 1, false, false, .transaction .commit ⟨7, [.take ⟨"Order", "a", 1, [], none⟩]⟩⟩]
    let r := ready .standard
    let r₁ := ((consumeBatch Replica.applier history).perform r).2
    let r₂ := ((consumeBatch Replica.applier history).perform r₁).2
    r.channel.state = .active ∧ r.replica = .empty false ∧
      history.map (·.key) = List.range' (r.channel.lastReceived + 1) history.length ∧
      (∀ a ∈ allArrivals history r.channel.staged, a.op.Rises) ∧
      r.replica.applyAll (operations (allArrivals history r.channel.staged)) = .ok (.empty false) ∧
      r₁.replica.entry? "a" = none ∧ r₂.replica.entry? "a" = some ⟨"Order", 1, [], [], false⟩ := by
  decide +kernel

end Receiver

end GroupReplication
