/-
What an operation does to a copy is what it does to the entry under its uid. It looks at nothing but that
entry, its lock and, where types are required, the types that are known. So copies that are the same on
some uids stay so by the same operations, and operations on other uids leave a copy the same on these.
-/
import GroupReplication.Proofs.Replica.Replay

namespace GroupReplication

namespace Replica

variable {r r' r'' : Replica} {settings : ConflictSettings} {transient : Bool}

/-! ## One operation -/

/-- An operation makes of an entry what it makes of the same entry in another copy. -/
theorem applyOperation_local {op : EntryOperation} (hentry : r'.entry? op.uid = r.entry? op.uid)
    (hlock : r'.locks.get? op.uid = r.locks.get? op.uid)
    (htype : r'.checkType op.typeName = r.checkType op.typeName) :
    r'.applyOperation op transient
      = (r.applyOperation op transient).map fun done => r'.put op.uid ( done.entry? op.uid) := by
  have hfind : r'.find op.uid = r.find op.uid := by rw [find, find, hentry]
  have hunlocked : r'.checkUnlocked op.uid = r.checkUnlocked op.uid := by
    rw [checkUnlocked, checkUnlocked, hlock]
  have hstored : ∀ e, entry? (r.store op.uid e) op.uid = some e := fun e => entry?_put_self _ (some e) r
  have hdropped : entry? (r.drop op.uid) op.uid = none := entry?_put_self _ none r
  simp only [applyOperation, htype]
  rcases r.checkType op.typeName with _ | _
  · rfl
  cases op with
  | write e =>
    show r'.applyWrite e transient = (r.applyWrite e transient).map _
    replace hentry : r'.entry? e.uid = r.entry? e.uid := hentry
    simp only [applyWrite, hentry]
    cases r.entry? e.uid with
    | some s => rfl
    | none => exact congrArg (fun s => Except.ok (r'.put e.uid s)) (hstored _).symm
  | update e =>
    show r'.applyUpdate e transient = (r.applyUpdate e transient).map _
    replace hfind : r'.find e.uid = r.find e.uid := hfind
    replace hunlocked : r'.checkUnlocked e.uid = r.checkUnlocked e.uid := hunlocked
    simp only [applyUpdate, hfind, hunlocked]
    rcases r.find e.uid with _ | s
    · rfl
    rcases r.checkUnlocked e.uid with _ | _
    · rfl
    show (if e.version ≤ s.version then _ else _) = Except.map _ (if e.version ≤ s.version then _ else _)
    split
    · rfl
    · exact congrArg (fun s => Except.ok (r'.put e.uid s)) (hstored _).symm
  | take e =>
    show r'.applyTake e = (r.applyTake e).map _
    replace hfind : r'.find e.uid = r.find e.uid := hfind
    replace hunlocked : r'.checkUnlocked e.uid = r.checkUnlocked e.uid := hunlocked
    simp only [applyTake, hfind, hunlocked]
    rcases r.find e.uid with _ | s
    · rfl
    rcases r.checkUnlocked e.uid with _ | _
    · rfl
    show (if e.version < s.version then _ else _) = Except.map _ (if e.version < s.version then _ else _)
    split
    · rfl
    · exact congrArg (fun s => Except.ok (r'.put e.uid s)) hdropped.symm
  | change c =>
    show r'.applyChange c = (r.applyChange c).map _
    replace hfind : r'.find c.uid = r.find c.uid := hfind
    replace hunlocked : r'.checkUnlocked c.uid = r.checkUnlocked c.uid := hunlocked
    simp only [applyChange, hfind, hunlocked]
    rcases r.find c.uid with _ | s
    · rfl
    show (if s.version = c.version then _ else _) = Except.map _ (if s.version = c.version then _ else _)
    split
    · exact congrArg Except.ok (put_stored hentry).symm
    rcases r.checkUnlocked c.uid with _ | _
    · rfl
    show (if s.version ≠ c.previousVersion then _ else _)
      = Except.map _ (if s.version ≠ c.previousVersion then _ else _)
    split
    · rfl
    · exact congrArg (fun s => Except.ok (r'.put c.uid s)) (hstored _).symm

/-- And so it does when conflicts are settled. -/
theorem settle_local (settings : ConflictSettings) (transient : Bool) {op : EntryOperation}
    (hentry : r'.entry? op.uid = r.entry? op.uid)
    (hlock : r'.locks.get? op.uid = r.locks.get? op.uid)
    (htype : r'.checkType op.typeName = r.checkType op.typeName) :
    ((Effect.entry op).settle applier settings transient r').2
      = r'.put op.uid ( entry? ((Effect.entry op).settle applier settings transient r).2 op.uid) := by
  have happly : r'.apply (.entry op) transient
      = (r.apply (.entry op) transient).map fun done => r'.put op.uid ( done.entry? op.uid) :=
    applyOperation_local hentry hlock htype
  cases hdone : r.apply (.entry op) transient with
  | ok done =>
    rw [hdone] at happly
    rw [settle_of_ok hdone, settle_of_ok happly]
  | error conflict =>
    rw [hdone] at happly
    replace happly : r'.apply (.entry op) transient = .error conflict := happly
    by_cases hdecide : settings.decide (Effect.entry op).kind conflict transient = .apply
    · obtain ⟨e, heq⟩ := Effect.eq_write_of_decide hdecide
      cases heq
      rw [settle_of_overruled hdone hdecide, settle_of_overruled happly hdecide]
      exact congrArg (r'.put e.uid) (entry?_put_self e.uid (some (entryOf e false)) r).symm
    · obtain ⟨outcome, hsettle, -⟩ := settle_of_conflict hdone hdecide
      obtain ⟨outcome', hsettle', -⟩ := settle_of_conflict happly hdecide
      rw [hsettle, hsettle']
      exact (put_stored hentry).symm

/-- A change to the types is carried out, or it leaves the copy as it is. -/
theorem settle_of_types {effect : Effect} (heffect : ∀ op, effect ≠ .entry op) :
    (effect.settle applier settings transient r).2 = (r.apply effect transient).toOption.getD r := by
  cases happly : r.apply effect transient with
  | ok r' =>
    rw [settle_of_ok happly]
    rfl
  | error conflict =>
    have hnever : settings.decide effect.kind conflict transient ≠ .apply := by
      intro hdecide
      obtain ⟨e, rfl⟩ := Effect.eq_write_of_decide hdecide
      exact heffect _ rfl
    obtain ⟨outcome, hsettle, -⟩ := settle_of_conflict happly hnever
    rw [hsettle]
    rfl

/-! ## Copies that are the same on some uids -/

/-- The copies hold the same under some uids. If they require types, they know the same types. -/
structure SameOn (own : String → Prop) (r r' : Replica) : Prop where
  entries : ∀ uid, own uid → r'.entry? uid = r.entry? uid
  locks : ∀ uid, own uid → r'.locks.get? uid = r.locks.get? uid
  requires : r'.requireTypes = r.requireTypes
  types : r.requireTypes = true → r'.types = r.types

/-- The copy with more types known. -/
def informed (ds : List TypeDescriptor) (r : Replica) : Replica :=
  { r with types := ds.foldl (fun types d => types.insert d.typeName d) r.types }

theorem informed_append (ds ds' : List TypeDescriptor) (r : Replica) :
    r.informed (ds ++ ds') = (r.informed ds).informed ds' := by
  rw [informed, List.foldl_append]
  rfl

variable {own : String → Prop}

namespace SameOn

theorem refl (own : String → Prop) (r : Replica) : r.SameOn own r :=
  ⟨fun _ _ => rfl, fun _ _ => rfl, rfl, fun _ => rfl⟩

theorem symm (h : r.SameOn own r') : r'.SameOn own r :=
  ⟨fun uid huid => (h.entries uid huid).symm, fun uid huid => (h.locks uid huid).symm, h.requires.symm,
    fun hrequired => (h.types (h.requires ▸ hrequired)).symm⟩

theorem trans (h : r.SameOn own r') (h' : r'.SameOn own r'') : r.SameOn own r'' :=
  ⟨fun uid huid => (h'.entries uid huid).trans (h.entries uid huid),
    fun uid huid => (h'.locks uid huid).trans (h.locks uid huid), h'.requires.trans h.requires,
    fun hrequired => (h'.types (h.requires.trans hrequired)).trans (h.types hrequired)⟩

theorem checkType (h : r.SameOn own r') (name : String) : r'.checkType name = r.checkType name := by
  cases hrequired : r.requireTypes with
  | false => simp only [Replica.checkType, h.requires, hrequired, Bool.false_and]
  | true =>
    simp only [Replica.checkType, hasType, h.requires, h.types hrequired]
    rfl

theorem informed (h : r.SameOn own r') (ds : List TypeDescriptor) :
    (r.informed ds).SameOn own (r'.informed ds) :=
  ⟨h.entries, h.locks, h.requires, fun hrequired => by
    simp only [Replica.informed, h.types hrequired]⟩

/-- Types do not matter where they are not required. -/
theorem of_informed (hfree : r.requireTypes = false) (ds : List TypeDescriptor) :
    (r.informed ds).SameOn own r :=
  ⟨fun _ _ => rfl, fun _ _ => rfl, rfl, fun hrequired => by
    rw [show (r.informed ds).requireTypes = r.requireTypes from rfl, hfree] at hrequired
    cases hrequired⟩

theorem put_other {uid : String} (huid : ¬ own uid) (stored : Option StoredEntry) :
    r.SameOn own (r.put uid stored) := by
  refine ⟨fun other hother => entry?_put_other ?_ stored r, fun other _ => ?_, ?_, fun _ => ?_⟩
  · rintro rfl
    exact huid hother
  · rw [locks_put]
  · cases stored <;> rfl
  · cases stored <;> rfl

theorem put_self (h : r.SameOn own r') (uid : String) (stored : Option StoredEntry) :
    (r.put uid stored).SameOn own (r'.put uid stored) := by
  refine ⟨fun other hother => ?_, fun other hother => ?_, ?_, ?_⟩
  · by_cases huid : other = uid
    · rw [huid, entry?_put_self, entry?_put_self]
    · rw [entry?_put_other huid, entry?_put_other huid, h.entries other hother]
  · rw [locks_put, locks_put, h.locks other hother]
  · cases stored <;> exact h.requires
  · cases stored <;> exact h.types

end SameOn

/-- A change to the types is carried out on both of two copies that know the same types, or on neither. -/
theorem settle_introduce (settings : ConflictSettings) (transient : Bool) (d : TypeDescriptor)
    (htype : ∀ name, r'.checkType name = r.checkType name) :
    (((Effect.introduce d).settle applier settings transient r).2 = r ∧
        ((Effect.introduce d).settle applier settings transient r').2 = r') ∨
      ((Effect.introduce d).settle applier settings transient r).2 = r.informed [d] ∧
        ((Effect.introduce d).settle applier settings transient r').2 = r'.informed [d] := by
  rw [settle_of_types (fun _ heq => by cases heq), settle_of_types (fun _ heq => by cases heq)]
  show ((r.introduceType d).toOption.getD r = r ∧ (r'.introduceType d).toOption.getD r' = r') ∨
    (r.introduceType d).toOption.getD r = _ ∧ (r'.introduceType d).toOption.getD r' = _
  unfold introduceType
  cases d.superType with
  | none => exact .inr ⟨rfl, rfl⟩
  | some parent =>
    simp only [htype]
    cases r.checkType parent with
    | error conflict => exact .inl ⟨rfl, rfl⟩
    | ok _ => exact .inr ⟨rfl, rfl⟩

theorem sameOn_settle_addIndex (index : TypeIndex) :
    r.SameOn own ((Effect.addIndex index).settle applier settings transient r).2 := by
  rw [settle_of_types fun _ heq => by cases heq]
  show r.SameOn own ((r.addTypeIndex index).toOption.getD r)
  rw [addTypeIndex]
  split <;> exact ⟨fun _ _ => rfl, fun _ _ => rfl, rfl, fun _ => rfl⟩

/-- An operation on another uid. -/
theorem sameOn_settle_other {op : EntryOperation} (huid : ¬ own op.uid) :
    r.SameOn own ((Effect.entry op).settle applier settings transient r).2 := by
  rw [settle_local settings transient (r := r) rfl rfl rfl]
  exact SameOn.put_other huid _

/-! ## The same effects on both copies -/

theorem SameOn.settle (h : r.SameOn own r') (effect : Effect) :
    (effect.settle applier settings transient r).2.SameOn own
      (effect.settle applier settings transient r').2 := by
  cases effect with
  | entry op =>
    by_cases huid : own op.uid
    · have hself : (Effect.settle applier settings transient (.entry op) r).2
          = r.put op.uid ( entry? (Effect.settle applier settings transient (.entry op) r).2 op.uid) :=
        settle_local settings transient rfl rfl rfl
      rw [settle_local settings transient (h.entries _ huid) (h.locks _ huid) (h.checkType _), hself]
      simpa only [entry?_put_self] using h.put_self _ _
    · exact ((sameOn_settle_other huid).symm.trans h).trans (sameOn_settle_other huid)
  | addIndex index => exact ((sameOn_settle_addIndex index).symm.trans h).trans (sameOn_settle_addIndex index)
  | introduce d =>
    rcases settle_introduce settings transient d h.checkType with
      ⟨hleft, hright⟩ | ⟨hleft, hright⟩
    · rw [hleft, hright]
      exact h
    · rw [hleft, hright]
      exact h.informed [d]

theorem SameOn.settleAll (h : r.SameOn own r') (effects : List Effect) :
    (Effect.settleAll applier settings transient effects r).SameOn own
      (Effect.settleAll applier settings transient effects r') := by
  induction effects generalizing r r' with
  | nil => exact h
  | cons effect effects ih => exact ih (h.settle effect)

end Replica

/-! ## Effects on other uids -/

/-- Only entries under other uids are changed. -/
def Effect.Apart (own : String → Prop) : Effect → Prop
  | .entry op => ¬ own op.uid
  | _ => True

/-- What effects on other uids can change in what is the same on some uids: more types are known. -/
theorem Replica.informed_settleAll (settings : ConflictSettings) (transient : Bool) {own : String → Prop}
    {effects : List Effect} (hapart : ∀ effect ∈ effects, effect.Apart own) (r : Replica) :
    ∃ ds, (∀ d ∈ ds, Effect.introduce d ∈ effects) ∧
      (r.informed ds).SameOn own (Effect.settleAll applier settings transient effects r) := by
  induction effects using List.reverseRecOn with
  | nil => exact ⟨[], fun _ hd => (nomatch hd), .refl own r⟩
  | append_singleton effects effect ih =>
    obtain ⟨ds, hds, hsame⟩ := ih fun e he => hapart e (List.mem_append_left _ he)
    have hlast : Effect.settleAll applier settings transient (effects ++ [effect]) r
        = (effect.settle applier settings transient
          (Effect.settleAll applier settings transient effects r)).2 := by
      rw [Effect.settleAll, List.foldl_append]
      rfl
    rw [hlast]
    have hkept : ∀ d ∈ ds, Effect.introduce d ∈ effects ++ [effect] :=
      fun d hd => List.mem_append_left _ (hds d hd)
    cases effect with
    | entry op =>
      have huid : ¬ own op.uid := hapart _ (List.mem_append_right _ (List.mem_singleton_self _))
      exact ⟨ds, hkept, hsame.trans (sameOn_settle_other huid)⟩
    | addIndex index => exact ⟨ds, hkept, hsame.trans (sameOn_settle_addIndex index)⟩
    | introduce d =>
      rcases settle_introduce settings transient d
        (r := Effect.settleAll applier settings transient effects r) (fun _ => rfl) with
        ⟨hdone, -⟩ | ⟨hdone, -⟩
      · rw [hdone]
        exact ⟨ds, hkept, hsame⟩
      · rw [hdone]
        refine ⟨ds ++ [d], fun d' hd' => ?_, ?_⟩
        · rcases List.mem_append.1 hd' with hd' | hd'
          · exact hkept d' hd'
          · rw [List.mem_singleton.1 hd']
            exact List.mem_append_right _ (List.mem_singleton_self _)
        · rw [informed_append]
          exact hsame.informed [d]

end GroupReplication
