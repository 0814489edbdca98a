/-
What a copy is once it consumed packets one after the other, each exactly once. A target whose calls
cannot fail has just that after every packet (`progress_consumes`), and a copy in memory is such a
target (`Replica.not_canFail`).
-/
import Mathlib.Data.List.Induction
import GroupReplication.Proofs.Target.Consume
import GroupReplication.Replica.Basic

namespace GroupReplication

open GroupReplication.Action

section Consumed

variable {ρ : Type} {A : Applier ρ} {settings : ConflictSettings} {log : Nat → Packet}

/-- What a packet makes of what is staged and of a copy, when all its effects are settled. -/
def Packet.settle (A : Applier ρ) (settings : ConflictSettings) (p : Packet) (w : Staged × ρ) :
    Staged × ρ :=
  ((p.payload.effects w.1).2,
    Effect.settleAll A settings p.transient (p.payload.effects w.1).1 w.2)

/-- What consuming packets makes of a copy for which nothing is staged. -/
def consumed (A : Applier ρ) (settings : ConflictSettings) (ps : List Packet) (replica : ρ) :
    Staged × ρ := ps.foldl (fun w p => p.settle A settings w) ([], replica)

theorem consumed_concat (ps : List Packet) (p : Packet) (replica : ρ) :
    consumed A settings (ps ++ [p]) replica = p.settle A settings (consumed A settings ps replica) := by
  rw [consumed, List.foldl_append]
  rfl

/-- The packets of a log with keys from `start` up to `key`. -/
def upTo (log : Nat → Packet) (start key : Nat) : List Packet :=
  (List.range' start (key + 1 - start)).map log

theorem range'_upTo_succ {start key : Nat} (h : start ≤ key + 1) :
    List.range' start (key + 1 + 1 - start) = List.range' start (key + 1 - start) ++ [key + 1] := by
  rw [show key + 1 + 1 - start = key + 1 - start + 1 by omega, List.range'_1_concat]
  congr 2
  omega

theorem upTo_succ {start key : Nat} (h : start ≤ key + 1) :
    upTo log start (key + 1) = upTo log start key ++ [log (key + 1)] := by
  rw [upTo, range'_upTo_succ h, List.map_append]
  rfl

/-- The work is what consuming the packets from `start` up to a key makes of a copy. -/
structure Consumes (A : Applier ρ) (settings : ConflictSettings) (log : Nat → Packet) (start : Nat)
    (base : ρ) (key : Nat) (w : Work ρ) : Prop where
  le : start ≤ key + 1
  result : (w.staged, w.replica) = consumed A settings (upTo log start key) base

variable {start : Nat} {base : ρ}

/-- Nothing is consumed before the start. -/
theorem consumes_start {key : Nat} (hkey : start = key + 1) {journal : List JournalEntry} :
    Consumes A settings log start base key ⟨[], base, journal⟩ := by
  refine ⟨Nat.le_of_eq hkey, ?_⟩
  rw [upTo, hkey, Nat.sub_self]
  rfl

/-- Where no effect can fail, each packet is settled behind those before it. -/
theorem progress_settles (hfail : ¬ A.CanFail settings) (base : Staged × ρ) :
    Progress A settings log fun key w => start ≤ key + 1 ∧
      (w.staged, w.replica) = (upTo log start key).foldl (fun w p => p.settle A settings w) base where
  next {key w w'} h happlies := by
    obtain ⟨hle, hresult⟩ := h
    refine ⟨by omega, ?_⟩
    rw [upTo_succ hle, List.foldl_append, ← hresult]
    cases happlies with
    | intro hcarried =>
      cases hcarried with
      | settled => rfl
  broken _ happlies := absurd happlies.canFail hfail
  back hcan := absurd hcan hfail

/-- Each packet takes the consumption one key further. -/
theorem progress_consumes (hfail : ¬ A.CanFail settings) :
    Progress A settings log (Consumes A settings log start base) where
  next h happlies := by
    obtain ⟨hle, hresult⟩ := (progress_settles hfail ([], base)).next ⟨h.le, h.result⟩ happlies
    exact ⟨hle, hresult⟩
  broken _ happlies := absurd happlies.canFail hfail
  back hcan := absurd hcan hfail

end Consumed

/-! ## Copies in memory -/

/-- Only a write is taken over, by a central store. -/
theorem ConflictSettings.overrules_of_decide {s : ConflictSettings} {kind : OperationKind}
    {conflict : Conflict} {transient : Bool} (h : s.decide kind conflict transient = .apply) :
    kind = .write ∧ s.overrules transient = true := by
  unfold decide at h
  split at h
  · split at h
    · exact ⟨rfl, ‹_›⟩
    · cases h
  all_goals cases h

theorem Effect.eq_write_of_decide {s : ConflictSettings} {effect : Effect} {conflict : Conflict}
    {transient : Bool} (h : s.decide effect.kind conflict transient = .apply) :
    ∃ e, effect = .entry (.write e) := by
  have hwrite := (ConflictSettings.overrules_of_decide h).1
  cases effect with
  | entry op =>
    cases op with
    | write e => exact ⟨e, rfl⟩
    | update e | take e | change c => cases hwrite
  | addIndex index | introduce d => cases hwrite

namespace Replica

variable {settings : ConflictSettings} {effect : Effect} {transient : Bool} {r r' : Replica}
  {conflict : Conflict}

theorem settle_of_ok (h : r.apply effect transient = .ok r') :
    effect.settle applier settings transient r = (.applied, r') := by
  have hcall : applier.apply effect transient r = (.ok (), r') := by
    show attempt r ((r.apply effect transient).mapError .conflict) = _
    rw [h]
    rfl
  rw [Effect.settle, hcall]

theorem apply_of_conflict (h : r.apply effect transient = .error conflict) :
    applier.apply effect transient r = (.error (.conflict conflict), r) := by
  show attempt r ((r.apply effect transient).mapError .conflict) = _
  rw [h]
  rfl

/-- A conflict that does not let the effect be taken over leaves the copy. -/
theorem settle_of_conflict (h : r.apply effect transient = .error conflict)
    (hdecide : settings.decide effect.kind conflict transient ≠ .apply) :
    ∃ outcome, effect.settle applier settings transient r = (outcome, r) ∧
      outcome.isSettled = true := by
  simp only [Effect.settle, apply_of_conflict h]
  cases hdecided : settings.decide effect.kind conflict transient with
  | ignore severity => exact ⟨.ignored severity conflict, rfl, rfl⟩
  | report severity => exact ⟨.reported severity conflict, rfl, rfl⟩
  | apply => exact absurd hdecided hdecide

/-- A write that is taken over cannot fail. -/
theorem settle_of_overruled {e : EntryImage}
    (h : r.apply (.entry (.write e)) transient = .error conflict)
    (hdecide : settings.decide .write conflict transient = .apply) :
    Effect.settle applier settings transient (.entry (.write e)) r
      = (.overwritten conflict, r.store e.uid (entryOf e false)) := by
  rw [Effect.settle, apply_of_conflict h]
  simp only [Effect.kind, EntryOperation.kind, hdecide]
  rfl

theorem isSettled_applier (settings : ConflictSettings) (effect : Effect) (transient : Bool)
    (r : Replica) : (effect.settle applier settings transient r).1.isSettled = true := by
  cases happly : r.apply effect transient with
  | ok r' =>
    rw [settle_of_ok happly]
    rfl
  | error conflict =>
    by_cases hdecide : settings.decide effect.kind conflict transient = .apply
    · obtain ⟨e, rfl⟩ := Effect.eq_write_of_decide hdecide
      rw [settle_of_overruled happly hdecide]
      rfl
    · obtain ⟨outcome, hsettle, hsettled⟩ := settle_of_conflict happly hdecide
      rw [hsettle]
      exact hsettled

theorem not_canFail : ¬ applier.CanFail settings := by
  rintro ⟨effect, transient, r, hopen⟩
  rw [isSettled_applier settings effect transient r] at hopen
  cases hopen

/-- A peer carries out an effect or leaves its copy as it is. -/
theorem settle_applier (hkind : settings.targetKind = .clustered) (effect : Effect)
    (transient : Bool) (r : Replica) :
    (effect.settle applier settings transient r).2 = (r.apply effect transient).toOption.getD r := by
  cases happly : r.apply effect transient with
  | ok r' =>
    rw [settle_of_ok happly]
    rfl
  | error conflict =>
    have hnever : settings.decide effect.kind conflict transient ≠ .apply := fun hdecide => by
      have hcentral := (ConflictSettings.overrules_of_decide hdecide).2
      simp [ConflictSettings.overrules, hkind] at hcentral
    obtain ⟨outcome, hsettle, -⟩ := settle_of_conflict happly hnever
    rw [hsettle]
    rfl

/-- The copy with other types and indexes. -/
def retyped (types : Table String TypeDescriptor) (indexes : Table String (List String))
    (r : Replica) : Replica := { r with types, indexes }

/-- Without required types the types do not matter to an operation. -/
theorem applyOperation_retyped {r : Replica} (h : r.requireTypes = false) (op : EntryOperation)
    (transient : Bool) (types : Table String TypeDescriptor) (indexes : Table String (List String)) :
    (r.retyped types indexes).applyOperation op transient
      = (r.applyOperation op transient).map (·.retyped types indexes) := by
  have hfree : ∀ (r : Replica) (name : String), r.requireTypes = false → r.checkType name = .ok () :=
    fun r name hr => by simp [checkType, hr]
  have hentry : ∀ uid, entry? (r.retyped types indexes) uid = r.entry? uid := fun _ => rfl
  have hfind : ∀ uid, (r.retyped types indexes).find uid = r.find uid := fun _ => rfl
  have hlock : ∀ uid, (r.retyped types indexes).checkUnlocked uid = r.checkUnlocked uid := fun _ => rfl
  simp only [applyOperation, hfree r _ h, hfree (r.retyped types indexes) _ h]
  cases op with
  | write e =>
    show applyWrite e transient _ = (applyWrite e transient r).map _
    simp only [applyWrite, hentry]
    cases r.entry? e.uid <;> rfl
  | update e =>
    show applyUpdate e transient _ = (applyUpdate e transient r).map _
    simp only [applyUpdate, hfind, hlock]
    rcases r.find e.uid with _ | stored
    · rfl
    rcases r.checkUnlocked e.uid with _ | _
    · rfl
    show (if e.version ≤ stored.version then _ else _)
      = Except.map _ (if e.version ≤ stored.version then _ else _)
    split <;> rfl
  | take e =>
    show applyTake e _ = (applyTake e r).map _
    simp only [applyTake, hfind, hlock]
    rcases r.find e.uid with _ | stored
    · rfl
    rcases r.checkUnlocked e.uid with _ | _
    · rfl
    show (if e.version < stored.version then _ else _)
      = Except.map _ (if e.version < stored.version then _ else _)
    split <;> rfl
  | change c =>
    show applyChange c _ = (applyChange c r).map _
    simp only [applyChange, hfind, hlock]
    rcases r.find c.uid with _ | stored
    · rfl
    show (if stored.version = c.version then _ else _)
      = Except.map _ (if stored.version = c.version then _ else _)
    split
    · rfl
    rcases r.checkUnlocked c.uid with _ | _
    · rfl
    show (if stored.version ≠ c.previousVersion then _ else _)
      = Except.map _ (if stored.version ≠ c.previousVersion then _ else _)
    split <;> rfl

/-- An operation changes entries only. -/
theorem applyOperation_ok {r r' : Replica} {op : EntryOperation} {transient : Bool}
    (h : r.applyOperation op transient = .ok r') : ∃ entries, r' = { r with entries } := by
  obtain ⟨-, -, h⟩ := bind_eq_ok h
  cases op with
  | write e =>
    simp only [applyWrite] at h
    split at h
    · cases h
    · cases h
      exact ⟨_, rfl⟩
  | update e =>
    obtain ⟨stored, -, h⟩ := bind_eq_ok h
    obtain ⟨-, -, h⟩ := bind_eq_ok h
    split at h
    · cases h
    · cases h
      exact ⟨_, rfl⟩
  | take e =>
    obtain ⟨stored, -, h⟩ := bind_eq_ok h
    obtain ⟨-, -, h⟩ := bind_eq_ok h
    split at h
    · cases h
    · cases h
      exact ⟨_, rfl⟩
  | change c =>
    obtain ⟨stored, -, h⟩ := bind_eq_ok h
    split at h
    · cases h
      exact ⟨_, rfl⟩
    · obtain ⟨-, -, h⟩ := bind_eq_ok h
      replace h : (if stored.version ≠ c.previousVersion then _ else _) = Except.ok r' := h
      split at h
      · cases h
      · cases h
        exact ⟨_, rfl⟩

/-- A change to the types leaves entries and locks. -/
theorem apply_retypes (r : Replica) {effect : Effect} (transient : Bool)
    (heffect : ∀ op, effect ≠ .entry op) :
    ∃ types indexes, (r.apply effect transient).toOption.getD r = r.retyped types indexes := by
  cases effect with
  | entry op => exact absurd rfl (heffect op)
  | addIndex index =>
    show ∃ types indexes, (r.addTypeIndex index).toOption.getD r = _
    rw [addTypeIndex]
    split <;> exact ⟨_, _, rfl⟩
  | introduce d =>
    show ∃ types indexes, (r.introduceType d).toOption.getD r = _
    cases hintroduced : r.introduceType d with
    | error conflict => exact ⟨_, _, rfl⟩
    | ok r' =>
      have hsame : r' = { r with types := r.types.insert d.typeName d } := by
        unfold introduceType at hintroduced
        split at hintroduced
        · obtain ⟨_, -, h⟩ := bind_eq_ok hintroduced
          exact (Except.ok.inj h).symm
        · exact (Except.ok.inj hintroduced).symm
      rw [hsame]
      exact ⟨_, _, rfl⟩

/-- No effect changes whether types are required. -/
theorem requireTypes_settle (hkind : settings.targetKind = .clustered) (effect : Effect)
    (transient : Bool) (r : Replica) :
    (effect.settle applier settings transient r).2.requireTypes = r.requireTypes := by
  rw [settle_applier hkind effect transient r]
  by_cases hentry : ∃ op, effect = .entry op
  · obtain ⟨op, rfl⟩ := hentry
    show ((r.applyOperation op transient).toOption.getD r).requireTypes = _
    cases happly : r.applyOperation op transient with
    | error conflict => rfl
    | ok r' =>
      obtain ⟨entries, rfl⟩ := applyOperation_ok happly
      rfl
  · have hother : ∀ op, effect ≠ .entry op := fun op hop => hentry ⟨op, hop⟩
    obtain ⟨types, indexes, heq⟩ := r.apply_retypes transient hother
    rw [heq]
    rfl

/-- Two copies that do not require types, and differ in their types only. -/
def Alike (r r' : Replica) : Prop :=
  r.requireTypes = false ∧ ∃ types indexes, r' = r.retyped types indexes

theorem Alike.settle (hkind : settings.targetKind = .clustered) {r r' : Replica} (h : r.Alike r')
    (effect : Effect) (transient : Bool) :
    (effect.settle applier settings transient r).2.Alike
      (effect.settle applier settings transient r').2 := by
  obtain ⟨hfree, types, indexes, rfl⟩ := h
  refine ⟨(requireTypes_settle hkind effect transient r).trans hfree, ?_⟩
  rw [settle_applier hkind effect transient r, settle_applier hkind effect transient _]
  by_cases hentry : ∃ op, effect = .entry op
  · obtain ⟨op, rfl⟩ := hentry
    refine ⟨types, indexes, ?_⟩
    show ((applyOperation op transient _).toOption.getD _)
      = ((applyOperation op transient r).toOption.getD r).retyped types indexes
    rw [applyOperation_retyped hfree]
    cases applyOperation op transient r <;> rfl
  · have hother : ∀ op, effect ≠ .entry op := fun op hop => hentry ⟨op, hop⟩
    obtain ⟨_, _, heq⟩ := r.apply_retypes transient hother
    obtain ⟨_, _, heq'⟩ := (r.retyped types indexes).apply_retypes transient hother
    rw [heq, heq']
    exact ⟨_, _, rfl⟩

theorem requireTypes_settleAll (hkind : settings.targetKind = .clustered) (transient : Bool)
    (effects : List Effect) (r : Replica) :
    (Effect.settleAll applier settings transient effects r).requireTypes = r.requireTypes := by
  induction effects generalizing r with
  | nil => rfl
  | cons effect effects ih =>
    exact (ih _).trans (requireTypes_settle hkind effect transient r)

theorem Alike.settleAll (hkind : settings.targetKind = .clustered) (transient : Bool)
    (effects : List Effect) {r r' : Replica} (h : r.Alike r') :
    (Effect.settleAll applier settings transient effects r).Alike
      (Effect.settleAll applier settings transient effects r') := by
  induction effects generalizing r r' with
  | nil => exact h
  | cons effect effects ih => exact ih (h.settle hkind effect transient)

theorem requireTypes_consumed (hkind : settings.targetKind = .clustered) (ps : List Packet)
    (r : Replica) : (consumed applier settings ps r).2.requireTypes = r.requireTypes := by
  induction ps using List.reverseRecOn with
  | nil => rfl
  | append_singleton ps p ih =>
    rw [consumed_concat]
    exact (requireTypes_settleAll hkind _ _ _).trans ih

/-- Without required types, what packets make of the entries does not depend on known types. -/
theorem Alike.consumed (hkind : settings.targetKind = .clustered) (ps : List Packet)
    {r r' : Replica} (h : r.Alike r') :
    (consumed applier settings ps r').1 = (consumed applier settings ps r).1 ∧
      (consumed applier settings ps r).2.Alike (consumed applier settings ps r').2 := by
  induction ps using List.reverseRecOn with
  | nil => exact ⟨rfl, h⟩
  | append_singleton ps p ih =>
    rw [consumed_concat, consumed_concat]
    refine ⟨by simp only [Packet.settle, ih.1], ?_⟩
    simp only [Packet.settle, ih.1]
    exact ih.2.settleAll hkind _ _

end Replica

end GroupReplication
