/-
Operations that come a second time. A single one may well do damage: a write brings back an entry
that was taken since, and a central store takes over an older version. The operations behind it undo
that, entry by entry. What an operation does depends on its own entry only (`result?`), and an entry
lives from a write to a take. In its last life nothing but a write that is taken over goes through
again; in a life before that, what goes through stays below the version at which the life ended, so
that the take at its end goes through as well (`Trails`).
-/
import GroupReplication.Proofs.Action
import GroupReplication.Proofs.Target.Consumed

namespace GroupReplication

namespace EntryOperation

/-- A change takes the version up. -/
def Rises : EntryOperation → Prop
  | .change c => c.previousVersion < c.version
  | _ => True

instance : DecidablePred Rises
  | .change c => inferInstanceAs (Decidable (c.previousVersion < c.version))
  | .write _ | .update _ | .take _ => inferInstanceAs (Decidable True)

def version : EntryOperation → UInt64
  | .write e | .update e | .take e => e.version
  | .change c => c.version

end EntryOperation

/-- An operation with the transient flag of the packet that carries it. -/
structure FlaggedOperation where
  op : EntryOperation
  transient : Bool
  deriving Repr, DecidableEq

/-! ## A single entry -/

namespace FlaggedOperation

variable {settings : ConflictSettings} {o : FlaggedOperation} {os : List FlaggedOperation}

/-- What the operation makes of what is stored under its uid and not locked, unless the two are in
conflict. -/
def result? (o : FlaggedOperation) (stored : Option StoredEntry) : Option (Option StoredEntry) :=
  match o.op, stored with
  | .write e, none => some (some (Replica.entryOf e o.transient))
  | .update e, some s =>
    if s.version < e.version then
      some (some { s with version := e.version, data := e.data, transient := o.transient })
    else none
  | .take e, some s => if s.version ≤ e.version then some none else none
  | .change c, some s =>
    if s.version = c.version then some (some s)
    else if s.version = c.previousVersion then some (some (Replica.changed c s))
    else none
  | _, _ => none

/-- The conflict of the operation with what is stored. -/
def conflict (o : FlaggedOperation) (stored : Option StoredEntry) : Conflict :=
  match o.op, stored with
  | .write e, _ => .alreadyInSpace e.uid
  | .update e, some s | .take e, some s => .versionConflict e.uid e.version s.version
  | .change c, some s => .versionConflict c.uid c.previousVersion s.version
  | op, none => .notInSpace op.uid

/-- What is stored once a conflict is settled as well. -/
def settled (settings : ConflictSettings) (o : FlaggedOperation) (stored : Option StoredEntry) :
    Option StoredEntry :=
  (o.result? stored).getD <| match o.op with
    | .write e => if settings.overrules o.transient then some (Replica.entryOf e false) else stored
    | _ => stored

def resultAll? (os : List FlaggedOperation) (stored : Option StoredEntry) :
    Option (Option StoredEntry) := os.foldlM (fun stored o => o.result? stored) stored

def settledAll (settings : ConflictSettings) (os : List FlaggedOperation)
    (stored : Option StoredEntry) : Option StoredEntry :=
  os.foldl (fun stored o => o.settled settings stored) stored

/-- The version of the first take. -/
def takenAt? : List FlaggedOperation → Option UInt64
  | [] => none
  | ⟨.take e, _⟩ :: _ => some e.version
  | _ :: os => takenAt? os

theorem settled_of_result {stored stored' : Option StoredEntry}
    (h : o.result? stored = some stored') : o.settled settings stored = stored' := by
  rw [settled, h, Option.getD_some]

/-- The operation is one that needs an entry and keeps it. -/
def Alters (o : FlaggedOperation) : Prop := o.op.kind = .update ∨ o.op.kind = .change

theorem takenAt?_cons_of_alters (h : o.Alters) : takenAt? (o :: os) = takenAt? os := by
  obtain ⟨op, transient⟩ := o
  cases op <;> simp_all [Alters, EntryOperation.kind, takenAt?]

theorem settled_none_of_alters (h : o.Alters) : o.settled settings none = none := by
  obtain ⟨op, transient⟩ := o
  cases op <;> simp_all [Alters, EntryOperation.kind, settled, result?]

/-- An update or a change that applies takes the entry to its version. -/
theorem result_of_alters (h : o.Alters) (hrises : o.op.Rises) {stored stored' : Option StoredEntry}
    (hresult : o.result? stored = some stored') : ∃ s s', stored = some s ∧ stored' = some s' ∧
      s.version ≤ o.op.version ∧ s'.version = o.op.version := by
  obtain ⟨op, transient⟩ := o
  cases stored with
  | none => cases op <;> simp_all [result?, Alters, EntryOperation.kind]
  | some s =>
    cases op with
    | write e | take e => simp [Alters, EntryOperation.kind] at h
    | update e =>
      simp only [result?] at hresult
      split at hresult
      · rename_i hlt
        cases hresult
        exact ⟨s, _, rfl, rfl, UInt64.le_of_lt hlt, rfl⟩
      · cases hresult
    | change c =>
      simp only [result?] at hresult
      split at hresult
      · rename_i hsame
        cases hresult
        exact ⟨s, s, rfl, rfl, UInt64.le_of_eq hsame, hsame⟩
      · split at hresult
        · rename_i hprevious
          cases hresult
          refine ⟨s, _, rfl, rfl, ?_, rfl⟩
          rw [hprevious]
          exact UInt64.le_of_lt hrises
        · cases hresult

/-- An update or a change leaves an entry or takes it from an older version to its own. -/
theorem settled_some_of_alters (settings : ConflictSettings) (h : o.Alters) (hrises : o.op.Rises)
    (x : StoredEntry) :
    o.settled settings (some x) = some x ∨ ∃ x', o.settled settings (some x) = some x' ∧
      x.version < o.op.version ∧ x'.version = o.op.version := by
  obtain ⟨op, transient⟩ := o
  cases op with
  | write e | take e => simp [Alters, EntryOperation.kind] at h
  | update e =>
    by_cases hlt : x.version < e.version
    · right
      exact ⟨_, by simp only [settled, result?, if_pos hlt]; rfl, hlt, rfl⟩
    · left
      simp only [settled, result?, if_neg hlt, Option.getD_none]
  | change c =>
    by_cases hsame : x.version = c.version
    · left
      simp only [settled, result?, if_pos hsame, Option.getD_some]
    by_cases hprevious : x.version = c.previousVersion
    · right
      refine ⟨_, by simp only [settled, result?, if_neg hsame, if_pos hprevious]; rfl, ?_, rfl⟩
      rw [hprevious]
      exact hrises
    · left
      simp only [settled, result?, if_neg hsame, if_neg hprevious, Option.getD_none]

/-- Versions do not go down in one life: an entry is taken at its version or a later one, or is there
in the end with its version or a later one. -/
theorem version_le_of_resultAll (hrises : ∀ o ∈ os, o.op.Rises) {s : StoredEntry}
    {last : Option StoredEntry} (h : resultAll? os (some s) = some last) :
    (∀ v, takenAt? os = some v → s.version ≤ v) ∧
      (takenAt? os = none → ∃ e, last = some e ∧ s.version ≤ e.version) := by
  induction os generalizing s with
  | nil =>
    cases h
    exact ⟨fun _ hv => (nomatch hv), fun _ => ⟨s, rfl, UInt64.le_refl _⟩⟩
  | cons o os ih =>
    have hhead := hrises o (List.mem_cons_self ..)
    have hrest : ∀ o ∈ os, o.op.Rises := fun o ho => hrises o (List.mem_cons_of_mem _ ho)
    obtain ⟨stored, hfirst, h⟩ := Option.bind_eq_some_iff.1 (List.foldlM_cons.symm.trans h)
    by_cases halters : o.Alters
    · obtain ⟨_, s', hs, rfl, hle, hversion⟩ := result_of_alters halters hhead hfirst
      cases hs
      obtain ⟨htaken, hlast⟩ := ih hrest h
      rw [takenAt?_cons_of_alters halters]
      refine ⟨fun v hv => UInt64.le_trans hle (hversion ▸ htaken v hv), fun hnone => ?_⟩
      obtain ⟨e, he, hend⟩ := hlast hnone
      exact ⟨e, he, UInt64.le_trans hle (hversion ▸ hend)⟩
    · obtain ⟨op, transient⟩ := o
      cases op with
      | write e => cases hfirst
      | take e =>
        refine ⟨fun v hv => ?_, fun hnone => nomatch hnone⟩
        cases hv
        simp only [result?] at hfirst
        split at hfirst
        · assumption
        · cases hfirst
      | update e => exact absurd (.inl rfl) halters
      | change c => exact absurd (.inr rfl) halters

/-- Where an entry stands in the second pass over `os`, against the first pass over them, which ends
with `last`. -/
inductive Trails (last : Option StoredEntry) (os : List FlaggedOperation) :
    (stored again : Option StoredEntry) → Prop where
  /-- Nothing went through yet that changes the end. -/
  | ahead {stored : Option StoredEntry} : Trails last os stored last
  | level {stored : Option StoredEntry} : Trails last os stored stored
  /-- Both are in a life that ends with a take which the second pass does not outrun. -/
  | doomed {s x : StoredEntry} {v : UInt64} (taken : takenAt? os = some v) (le : x.version ≤ v) :
      Trails last os (some s) (some x)

namespace Trails

variable {last stored stored' again : Option StoredEntry}

theorem write {e : EntryImage} {transient : Bool}
    (h : Trails last (⟨.write e, transient⟩ :: os) stored again)
    (hfirst : (⟨.write e, transient⟩ : FlaggedOperation).result? stored = some stored') :
    Trails last os stored' ((⟨.write e, transient⟩ : FlaggedOperation).settled settings again) := by
  cases stored with
  | some s => cases hfirst
  | none =>
    cases hfirst
    cases h with
    | level => exact .level
    | ahead =>
      cases last with
      | none => exact .level
      | some l =>
        simp only [settled, result?, Option.getD_none]
        split
        · rename_i hoverrules
          -- only what is not transient is taken over
          have hkept : transient = false := by
            simpa [ConflictSettings.overrules] using (Bool.and_eq_true_iff.1 hoverrules).2
          rw [hkept]
          exact .level
        · exact .ahead

theorem take {e : EntryImage} {transient : Bool}
    (h : Trails last (⟨.take e, transient⟩ :: os) stored again)
    (hfirst : (⟨.take e, transient⟩ : FlaggedOperation).result? stored = some stored') :
    Trails last os stored' ((⟨.take e, transient⟩ : FlaggedOperation).settled settings again) := by
  have hgone : stored' = none := by
    cases stored with
    | none => cases hfirst
    | some s =>
      simp only [result?] at hfirst
      split at hfirst
      · exact (Option.some.inj hfirst).symm
      · cases hfirst
  subst hgone
  cases h with
  | level =>
    rw [settled_of_result hfirst]
    exact .level
  | ahead =>
    cases last with
    | none => exact .level
    | some l =>
      by_cases hle : l.version ≤ e.version
      · simp only [settled, result?, if_pos hle, Option.getD_some]
        exact .level
      · simp only [settled, result?, if_neg hle, Option.getD_none]
        exact .ahead
  | doomed htaken hle =>
    cases htaken
    simp only [settled, result?, if_pos hle, Option.getD_some]
    exact .level

theorem alter (halters : o.Alters) (hrises : o.op.Rises) (hrest : ∀ o ∈ os, o.op.Rises)
    (h : Trails last (o :: os) stored again) (hfirst : o.result? stored = some stored')
    (hthen : resultAll? os stored' = some last) :
    Trails last os stored' (o.settled settings again) := by
  obtain ⟨s, s', rfl, rfl, hle, hversion⟩ := result_of_alters halters hrises hfirst
  obtain ⟨htaken, hkept⟩ := version_le_of_resultAll hrest hthen
  rw [hversion] at htaken hkept
  cases h with
  | level =>
    rw [settled_of_result hfirst]
    exact .level
  | ahead =>
    cases last with
    | none =>
      rw [settled_none_of_alters halters]
      exact .ahead
    | some l =>
      rcases settled_some_of_alters settings halters hrises l with hsame | ⟨x, hx, hlt, hat⟩
      · rw [hsame]
        exact .ahead
      · rw [hx]
        cases hend : takenAt? os with
        | some v => exact .doomed hend (hat ▸ htaken v hend)
        | none =>
          obtain ⟨_, he, hend⟩ := hkept hend
          cases he
          exact absurd hlt (UInt64.not_lt.2 hend)
  | @doomed _ x v hend hbelow =>
    rw [takenAt?_cons_of_alters halters] at hend
    rcases settled_some_of_alters settings halters hrises x with hsame | ⟨x', hx, -, hat⟩
    · rw [hsame]
      exact .doomed hend hbelow
    · rw [hx]
      exact .doomed hend (hat ▸ htaken v hend)

theorem step (hrises : o.op.Rises) (hrest : ∀ o ∈ os, o.op.Rises)
    (h : Trails last (o :: os) stored again) (hfirst : o.result? stored = some stored')
    (hthen : resultAll? os stored' = some last) :
    Trails last os stored' (o.settled settings again) := by
  obtain ⟨op, transient⟩ := o
  cases op with
  | write e => exact h.write hfirst
  | take e => exact h.take hfirst
  | update e => exact h.alter (.inl rfl) hrises hrest hfirst hthen
  | change c => exact h.alter (.inr rfl) hrises hrest hfirst hthen

/-- The second pass ends where the first one did. -/
theorem settledAll_eq (hrises : ∀ o ∈ os, o.op.Rises) (h : Trails last os stored again)
    (hfirst : resultAll? os stored = some last) : settledAll settings os again = last := by
  induction os generalizing stored again with
  | nil =>
    cases hfirst
    cases h with
    | ahead => rfl
    | level => rfl
    | doomed htaken => cases htaken
  | cons o os ih =>
    obtain ⟨stored', hone, hthen⟩ := Option.bind_eq_some_iff.1 (List.foldlM_cons.symm.trans hfirst)
    have hrest : ∀ o ∈ os, o.op.Rises := fun o ho => hrises o (List.mem_cons_of_mem _ ho)
    exact ih hrest (h.step (hrises o (List.mem_cons_self ..)) hrest hone hthen) hthen

end Trails

end FlaggedOperation

/-! ## A copy -/

namespace Replica

variable {r r' : Replica} {settings : ConflictSettings} {o : FlaggedOperation}
  {os : List FlaggedOperation}

/-- The copy with what is to be stored under a uid. -/
def put (uid : String) (stored : Option StoredEntry) (r : Replica) : Replica :=
  match stored with
  | some e => r.store uid e
  | none => r.drop uid

@[simp] theorem entry?_put_self (uid : String) (stored : Option StoredEntry) (r : Replica) :
    entry? (r.put uid stored) uid = stored := by
  cases stored with
  | some e => exact Table.get?_insert_self ..
  | none => exact Table.get?_erase_self ..

theorem entry?_put_other {uid other : String} (hne : other ≠ uid) (stored : Option StoredEntry)
    (r : Replica) : entry? (r.put uid stored) other = r.entry? other := by
  cases stored with
  | some e => exact Table.get?_insert_other _ _ hne
  | none => exact Table.get?_erase_other _ hne

@[simp] theorem locks_put (uid : String) (stored : Option StoredEntry) (r : Replica) :
    (r.put uid stored).locks = r.locks := by cases stored <;> rfl

@[simp] theorem checkType_put (uid : String) (stored : Option StoredEntry) (r : Replica)
    (name : String) : (r.put uid stored).checkType name = r.checkType name := by
  cases stored <;> rfl

/-- Storing what is there changes nothing. -/
theorem put_stored {uid : String} {stored : Option StoredEntry} (h : r.entry? uid = stored) :
    r.put uid stored = r := by
  cases stored with
  | some e => simp only [put, store, Table.insert_of_get? h]
  | none => simp only [put, drop, Table.erase_of_get? h]

/-- Neither a lock nor a missing type stands in the way of the operations. -/
structure Admits (r : Replica) (os : List FlaggedOperation) : Prop where
  unlocked : r.locks = []
  typed : ∀ o ∈ os, r.checkType o.op.typeName = .ok ()

theorem Admits.put (h : r.Admits os) (uid : String) (stored : Option StoredEntry) :
    (r.put uid stored).Admits os :=
  ⟨by rw [locks_put, h.unlocked], fun o ho => by rw [checkType_put, h.typed o ho]⟩

theorem Admits.withEntries (h : r.Admits os) (entries : Table String StoredEntry) :
    ({ r with entries } : Replica).Admits os := ⟨h.unlocked, h.typed⟩

theorem Admits.mono {os' : List FlaggedOperation} (h : r.Admits os) (hsub : ∀ o ∈ os', o ∈ os) :
    r.Admits os' := ⟨h.unlocked, fun o ho => h.typed o (hsub o ho)⟩

/-- What an operation does to a copy is what it does to its entry. -/
theorem applyOperation_eq (h : r.Admits [o]) :
    r.applyOperation o.op o.transient = match o.result? ( r.entry? o.op.uid) with
      | some stored => .ok (r.put o.op.uid stored)
      | none => .error (o.conflict ( r.entry? o.op.uid)) := by
  obtain ⟨op, transient⟩ := o
  have htyped := h.typed _ (List.mem_singleton_self _)
  have hfree : ∀ uid, r.checkUnlocked uid = .ok () := fun uid => by simp [checkUnlocked, h.unlocked]
  simp only [applyOperation, htyped]
  cases op with
  | write e =>
    show r.applyWrite e transient = _
    simp only [EntryOperation.uid, applyWrite]
    cases r.entry? e.uid <;> rfl
  | update e =>
    show r.applyUpdate e transient = _
    simp only [EntryOperation.uid, applyUpdate, find, hfree]
    cases r.entry? e.uid with
    | none => rfl
    | some s =>
      show (if e.version ≤ s.version then _ else _) = _
      by_cases hle : e.version ≤ s.version
      · simp only [FlaggedOperation.result?, if_pos hle, if_neg (UInt64.not_lt.2 hle)]
        rfl
      · simp only [FlaggedOperation.result?, if_neg hle, if_pos (UInt64.not_le.1 hle)]
        rfl
  | take e =>
    show r.applyTake e = _
    simp only [EntryOperation.uid, applyTake, find, hfree]
    cases r.entry? e.uid with
    | none => rfl
    | some s =>
      show (if e.version < s.version then _ else _) = _
      by_cases hlt : e.version < s.version
      · simp only [FlaggedOperation.result?, if_pos hlt, if_neg (UInt64.not_le.2 hlt)]
        rfl
      · simp only [FlaggedOperation.result?, if_neg hlt, if_pos (UInt64.not_lt.1 hlt)]
        rfl
  | change c =>
    show r.applyChange c = _
    simp only [EntryOperation.uid, applyChange, find, hfree]
    cases hentry : r.entry? c.uid with
    | none => rfl
    | some s =>
      show (if s.version = c.version then _ else if s.version ≠ c.previousVersion then _ else _) = _
      by_cases hsame : s.version = c.version
      · simp only [FlaggedOperation.result?, if_pos hsame, put_stored hentry]
        rfl
      by_cases hprevious : s.version = c.previousVersion
      · simp only [FlaggedOperation.result?, if_neg hsame, if_pos hprevious,
          if_neg (not_not_intro hprevious)]
        rfl
      · simp only [FlaggedOperation.result?, if_neg hsame, if_neg hprevious, if_pos hprevious]
        rfl

/-- And so it is when conflicts are settled. -/
theorem settle_eq (h : r.Admits [o]) :
    ((Effect.entry o.op).settle applier settings o.transient r).2
      = r.put o.op.uid (o.settled settings ( r.entry? o.op.uid)) := by
  have happly : r.apply (.entry o.op) o.transient = _ := applyOperation_eq h
  cases hresult : o.result? ( r.entry? o.op.uid) with
  | some stored =>
    rw [hresult] at happly
    rw [settle_of_ok happly, FlaggedOperation.settled_of_result hresult]
  | none =>
    rw [hresult] at happly
    rw [FlaggedOperation.settled, hresult, Option.getD_none]
    obtain ⟨op, transient⟩ := o
    by_cases hdecide : settings.decide op.kind
      (FlaggedOperation.conflict ⟨op, transient⟩ ( r.entry? op.uid)) transient = .apply
    · obtain ⟨hwrite, hoverrules⟩ := ConflictSettings.overrules_of_decide hdecide
      cases op with
      | write e =>
        rw [settle_of_overruled happly hdecide]
        simp only [if_pos hoverrules]
        rfl
      | update e | take e | change c => cases hwrite
    · obtain ⟨outcome, hsettle, -⟩ := settle_of_conflict happly hdecide
      rw [hsettle]
      cases op with
      | write e =>
        have hnot : ¬ settings.overrules transient = true := fun hoverrules => hdecide (if_pos hoverrules)
        simp only [if_neg hnot, put_stored]
      | update e | take e | change c => simp only [put_stored]

/-- Applies operations in their order, up to the first that conflicts. -/
def applyAll (os : List FlaggedOperation) (r : Replica) : Except Conflict Replica :=
  os.foldlM (fun r o => r.applyOperation o.op o.transient) r

theorem applyAll_ok (h : r.applyAll os = .ok r') : ∃ entries, r' = { r with entries } := by
  induction os generalizing r with
  | nil =>
    cases h
    exact ⟨_, rfl⟩
  | cons o os ih =>
    obtain ⟨r₁, hfirst, hrest⟩ := bind_eq_ok (List.foldlM_cons.symm.trans h)
    obtain ⟨_, rfl⟩ := applyOperation_ok hfirst
    obtain ⟨_, rfl⟩ := ih hrest
    exact ⟨_, rfl⟩

/-- Operations that all apply meet neither a lock nor a missing type, and each entry becomes what
they make of it. -/
theorem resultAll_of_applyAll (hunlocked : r.locks = []) (h : r.applyAll os = .ok r') :
    r.Admits os ∧ ∀ uid, FlaggedOperation.resultAll? (os.filter (·.op.uid = uid)) ( r.entry? uid)
      = some ( r'.entry? uid) := by
  induction os generalizing r with
  | nil =>
    cases h
    exact ⟨⟨hunlocked, fun _ ho => nomatch ho⟩, fun _ => rfl⟩
  | cons o os ih =>
    obtain ⟨r₁, hfirst, hrest⟩ := bind_eq_ok (List.foldlM_cons.symm.trans h)
    obtain ⟨_, htyped, _⟩ := bind_eq_ok hfirst
    have hadmits : r.Admits [o] := ⟨hunlocked, fun _ ho => List.mem_singleton.1 ho ▸ htyped⟩
    rw [applyOperation_eq hadmits] at hfirst
    split at hfirst
    · rename_i stored hresult
      cases hfirst
      obtain ⟨hbehind, hentries⟩ := ih (by rw [locks_put, hunlocked]) hrest
      refine ⟨⟨hunlocked, fun o' ho' => ?_⟩, fun uid => ?_⟩
      · rcases List.mem_cons.1 ho' with rfl | ho'
        · exact htyped
        · rw [← hbehind.typed o' ho', checkType_put]
      · by_cases huid : o.op.uid = uid
        · subst huid
          rw [List.filter_cons_of_pos (by simp), FlaggedOperation.resultAll?, List.foldlM_cons,
            hresult]
          exact (congrArg _ (entry?_put_self ..).symm).trans (hentries _)
        · rw [List.filter_cons_of_neg (by simpa using huid), ← hentries uid,
            entry?_put_other (Ne.symm huid)]
    · cases hfirst

/-- Brings operations to the copy again, in their order. The settings decide about a conflict; a call
that fails ends it. -/
def applyAgain (settings : ConflictSettings) (os : List FlaggedOperation) (r : Replica) :
    Option Replica :=
  os.foldlM (fun r o =>
    let (outcome, r) := (Effect.entry o.op).settle applier settings o.transient r
    if outcome.isSettled then some r else none) r

/-- Brought again, operations are all settled, and each entry becomes what settling makes of it. -/
theorem applyAgain_eq (settings : ConflictSettings) (h : r.Admits os) :
    ∃ r', r.applyAgain settings os = some r' ∧ ∀ uid, r'.entry? uid
      = FlaggedOperation.settledAll settings (os.filter (·.op.uid = uid)) ( r.entry? uid) := by
  induction os generalizing r with
  | nil => exact ⟨r, rfl, fun _ => rfl⟩
  | cons o os ih =>
    have hsettled := isSettled_applier settings (.entry o.op) o.transient r
    have hone : r.Admits [o] := h.mono fun _ ho => List.mem_singleton.1 ho ▸ List.mem_cons_self ..
    obtain ⟨r', hrest, hentries⟩ := ih ((h.mono fun _ ho => List.mem_cons_of_mem _ ho).put o.op.uid
      (o.settled settings ( r.entry? o.op.uid)))
    refine ⟨r', ?_, fun uid => ?_⟩
    · rw [← settle_eq hone] at hrest
      simp only [applyAgain, List.foldlM_cons, if_pos hsettled]
      exact hrest
    · rw [hentries uid]
      by_cases huid : o.op.uid = uid
      · subst huid
        rw [entry?_put_self, List.filter_cons_of_pos (by simp)]
        rfl
      · rw [entry?_put_other (Ne.symm huid), List.filter_cons_of_neg (by simpa using huid)]

/-- Operations that all applied to a copy without locks can be brought to it again from any of them
on, whatever it held at first and whatever the settings say: nothing fails, and each entry ends up as
it was. -/
theorem suffix_replayed {before suffix : List FlaggedOperation} (hunlocked : r.locks = [])
    (hrises : ∀ o ∈ before ++ suffix, o.op.Rises) (happlied : r.applyAll (before ++ suffix) = .ok r')
    (settings : ConflictSettings) :
    ∃ again, r'.applyAgain settings suffix = some again ∧
      ∀ uid, again.entry? uid = r'.entry? uid := by
  rw [applyAll, List.foldlM_append] at happlied
  obtain ⟨middle, hbefore, hsuffix⟩ := bind_eq_ok happlied
  obtain ⟨_, rfl⟩ := applyAll_ok hbefore
  obtain ⟨hadmits, hfirst⟩ := resultAll_of_applyAll (by exact hunlocked) hsuffix
  obtain ⟨entries, rfl⟩ := applyAll_ok hsuffix
  obtain ⟨again, hagain, hentries⟩ := applyAgain_eq settings
    (hadmits.withEntries entries)
  refine ⟨again, hagain, fun uid => ?_⟩
  rw [hentries uid]
  refine FlaggedOperation.Trails.ahead.settledAll_eq (fun o ho => ?_) (hfirst uid)
  exact hrises o (List.mem_append_right _ (List.mem_filter.1 ho).1)

/-- An entry that is written, taken, written again with an older version, and changed. -/
def twoLives : List FlaggedOperation :=
  [⟨.write ⟨"Order", "a", 5, [], none⟩, false⟩, ⟨.take ⟨"Order", "a", 7, [], none⟩, false⟩,
    ⟨.write ⟨"Order", "a", 1, [4], none⟩, false⟩,
    ⟨.change ⟨"Order", "a", 1, 2, [("state", [3])], none⟩, true⟩]

/-- A central store takes over the first write again, and drops it again. -/
theorem suffix_replayed_twoLives :
    let first : FlaggedOperation := ⟨.write ⟨"Order", "b", 1, [], none⟩, true⟩
    let r' : Replica := { empty false with
      entries := [("b", ⟨"Order", 1, [], [], true⟩),
        ("a", ⟨"Order", 2, [4], [("state", [3])], false⟩)] }
    (empty false).locks = [] ∧ (∀ o ∈ [first] ++ twoLives, o.op.Rises) ∧
      (empty false).applyAll ([first] ++ twoLives) = .ok r' ∧
      ∃ again, r'.applyAgain ⟨.centralStore, .debug, .info⟩ twoLives = some again ∧
        ∀ uid, again.entry? uid = r'.entry? uid := by
  intro first r'
  have hrises : ∀ o ∈ [first] ++ twoLives, o.op.Rises := by decide
  have happlied : (empty false).applyAll ([first] ++ twoLives) = .ok r' := by decide +kernel
  exact ⟨rfl, hrises, happlied, suffix_replayed rfl hrises happlied _⟩

end Replica

end GroupReplication
