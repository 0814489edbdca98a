/-
How combined operations are performed: one step after the other, and not past a failure.
-/
import GroupReplication.Action

namespace GroupReplication

theorem bind_eq_ok {ε α β : Type} {x : Except ε α} {f : α → Except ε β} {b : β}
    (h : x >>= f = .ok b) : ∃ a, x = .ok a ∧ f a = .ok b := by
  cases x with
  | error e => cases h
  | ok a => exact ⟨a, rfl, h⟩

theorem eq_ok_of_isOk {ε α : Type} {x : Except ε α} (h : x.isOk = true) : ∃ a, x = .ok a := by
  cases x with
  | error e => cases h
  | ok a => exact ⟨a, rfl⟩

namespace Action

variable {σ τ α β : Type}

theorem eq_error_of_isOk {ε α : Type} {x : Except ε α} (h : x.isOk = false) : ∃ e, x = .error e := by
  cases x with
  | error e => exact ⟨e, rfl⟩
  | ok a => cases h

theorem eq_ok_of_toOption {ε : Type} {r : Except ε α} {a : α} (h : r.toOption = some a) : r = .ok a := by
  cases r with
  | error e => cases h
  | ok b => exact congrArg Except.ok (Option.some.inj h)

theorem perform_bind_ok {act : Action σ α} {f : α → Action σ β} {s t : σ} {a : α}
    (h : perform act s = (.ok a, t)) : perform (act >>= f) s = perform (f a) t := by
  rw [perform_bind, h]

theorem perform_bind_error {act : Action σ α} {f : α → Action σ β} {s t : σ} {e : Error}
    (h : perform act s = (.error e, t)) : perform (act >>= f) s = (.error e, t) := by
  rw [perform_bind, h]

@[simp] theorem perform_get_bind (f : σ → Action σ α) (s : σ) :
    perform (get >>= f) s = perform (f s) s := perform_bind_ok rfl

@[simp] theorem perform_set_bind (t : σ) (f : PUnit → Action σ α) (s : σ) :
    perform (set t >>= f) s = perform (f ()) t := perform_bind_ok rfl

@[simp] theorem perform_modify_bind (g : σ → σ) (f : PUnit → Action σ α) (s : σ) :
    perform (modify g >>= f) s = perform (f ()) (g s) := perform_bind_ok rfl

@[simp] theorem perform_throw_bind (e : Error) (f : α → Action σ β) (s : σ) :
    perform ((throw e : Action σ α) >>= f) s = (.error e, s) := perform_bind_error rfl

@[simp] theorem perform_decided_ok_bind (a : α) (f : α → Action σ β) (s : σ) :
    perform (decided (.ok a) >>= f) s = perform (f a) s := perform_bind_ok rfl

@[simp] theorem perform_decided_error_bind (e : Error) (f : α → Action σ β) (s : σ) :
    perform ((decided (.error e) : Action σ α) >>= f) s = (.error e, s) := perform_bind_error rfl

theorem perform_map (f : α → β) (act : Action σ α) (s : σ) :
    perform (f <$> act) s = ((perform act s).1.map f, (perform act s).2) := by
  rw [map_eq_pure_bind, perform_bind]
  rcases perform act s with ⟨_ | _, _⟩ <;> rfl

theorem perform_map_of {act : Action σ α} {s t : σ} {r : Except Error α}
    (h : perform act s = (r, t)) (f : α → β) : perform (f <$> act) s = (r.map f, t) := by
  rw [perform_map, h]

theorem perform_discard (act : Action σ α) (s : σ) :
    perform (discard act) s = ((perform act s).1.map fun _ => (), (perform act s).2) := by
  rw [show discard act = (fun _ => ()) <$> act from rfl, perform_map]

@[simp] theorem perform_within (part : σ → τ) (replace : τ → σ → σ) (act : Action τ α) (s : σ) :
    perform (act.within part replace) s
      = ((perform act (part s)).1, replace (perform act (part s)).2 s) := rfl

@[simp] theorem perform_attempt (act : Action σ α) (s : σ) :
    perform act.attempt s = (.ok (perform act s).1, (perform act s).2) := rfl

@[simp] theorem perform_ite (c : Prop) [Decidable c] (x y : Action σ α) (s : σ) :
    perform (if c then x else y) s = if c then perform x s else perform y s := by
  split <;> rfl

/-- What holds of the state after every way in which an operation can end. -/
def Keeps (P : σ → Prop) (act : Action σ α) : Prop := ∀ s, P s → P (perform act s).2

theorem Keeps.bind {P : σ → Prop} {act : Action σ α} {f : α → Action σ β} (h : Keeps P act)
    (hf : ∀ a, Keeps P (f a)) : Keeps P (act >>= f) := by
  intro s hs
  have hact := h s hs
  rw [perform_bind]
  rcases heq : perform act s with ⟨_ | a, t⟩
  · rw [heq] at hact; exact hact
  · rw [heq] at hact; exact hf a t hact

theorem Keeps.get {P : σ → Prop} : Keeps P (get : Action σ σ) := fun _ hs => hs

theorem Keeps.getting {P : σ → Prop} {f : σ → Action σ α} (h : ∀ s, P s → Keeps P (f s)) :
    Keeps P (MonadState.get >>= f) := by
  intro s hs
  rw [perform_get_bind]
  exact h s hs s hs

theorem Keeps.set {P : σ → Prop} {t : σ} (h : P t) : Keeps P (MonadState.set t : Action σ PUnit) :=
  fun _ _ => h

theorem Keeps.modify {P : σ → Prop} {f : σ → σ} (h : ∀ s, P s → P (f s)) :
    Keeps P (modify f : Action σ PUnit) := h

theorem Keeps.pure {P : σ → Prop} (a : α) : Keeps P (Pure.pure a : Action σ α) := fun _ hs => hs

theorem Keeps.throw {P : σ → Prop} (e : Error) : Keeps P (throw e : Action σ α) := fun _ hs => hs

theorem Keeps.throw_bind {P : σ → Prop} (e : Error) (f : α → Action σ β) :
    Keeps P ((MonadExcept.throw e : Action σ α) >>= f) := fun _ hs => hs

theorem Keeps.ite {P : σ → Prop} {c : Prop} [Decidable c] {x y : Action σ α} (hx : Keeps P x)
    (hy : Keeps P y) : Keeps P (if c then x else y) := by
  split
  · exact hx
  · exact hy

theorem Keeps.decided {P : σ → Prop} (r : Except Error α) : Keeps P (decided r) :=
  fun _ hs => hs

theorem Keeps.discard {P : σ → Prop} {act : Action σ α} (h : Keeps P act) :
    Keeps P (Functor.discard act) := by
  intro s hs
  rw [perform_discard]
  exact h s hs

/-- From states with `P` the operation answers in states with `Q`, or fails in states with `R`. -/
def Ensures (P : σ → Prop) (act : Action σ α) (Q : α → σ → Prop) (R : σ → Prop) : Prop :=
  ∀ s, P s → (∃ a t, perform act s = (.ok a, t) ∧ Q a t) ∨ ∃ e t, perform act s = (.error e, t) ∧ R t

namespace Ensures

variable {P R : σ → Prop} {act : Action σ α} {Q : α → σ → Prop} {Q' : β → σ → Prop}

theorem bind {f : α → Action σ β} (h : Ensures P act Q R) (hf : ∀ a, Ensures (Q a) (f a) Q' R) :
    Ensures P (act >>= f) Q' R := by
  intro s hs
  rcases h s hs with ⟨a, t, hok, hq⟩ | ⟨e, t, he, hr⟩
  · rw [perform_bind_ok hok]
    exact hf a t hq
  · exact .inr ⟨e, t, perform_bind_error he, hr⟩

theorem mono {P' R' : σ → Prop} (h : Ensures P act Q R) (hP : ∀ s, P' s → P s)
    (hR : ∀ s, R s → R' s) : Ensures P' act Q R' := by
  intro s hs
  rcases h s (hP s hs) with hok | ⟨e, t, he, hr⟩
  · exact .inl hok
  · exact .inr ⟨e, t, he, hR t hr⟩

theorem pure {a : α} (h : ∀ s, P s → Q a s) : Ensures P (Pure.pure a : Action σ α) Q R :=
  fun s hs => .inl ⟨a, s, rfl, h s hs⟩

theorem throw {e : Error} (h : ∀ s, P s → R s) : Ensures P (MonadExcept.throw e : Action σ α) Q R :=
  fun s hs => .inr ⟨e, s, rfl, h s hs⟩

theorem decided {r : Except Error α} (hok : ∀ a s, r = .ok a → P s → Q a s) (h : ∀ s, P s → R s) :
    Ensures P (Action.decided r) Q R := by
  intro s hs
  cases r with
  | ok a => exact .inl ⟨a, s, rfl, hok a s rfl hs⟩
  | error e => exact .inr ⟨e, s, rfl, h s hs⟩

theorem modify {f : σ → σ} {Q : PUnit → σ → Prop} (h : ∀ s, P s → Q ⟨⟩ (f s)) :
    Ensures P (modify f : Action σ PUnit) Q R :=
  fun s hs => .inl ⟨_, _, rfl, h s hs⟩

theorem getting {f : σ → Action σ β} (h : ∀ s, P s → Ensures P (f s) Q' R) :
    Ensures P (get >>= f) Q' R := by
  intro s hs
  rw [perform_get_bind]
  exact h s hs s hs

theorem attempted {R' : σ → Prop} (h : Ensures P act Q R) :
    Ensures P act.attempt (fun r s => (∀ a, r = .ok a → Q a s) ∧ ∀ e, r = .error e → R s) R' := by
  intro s hs
  rw [perform_attempt]
  rcases h s hs with ⟨a, t, hok, hq⟩ | ⟨e, t, he, hr⟩
  · rw [hok]
    refine .inl ⟨_, t, rfl, fun a' heq => ?_, fun _ heq => by cases heq⟩
    cases heq
    exact hq
  · rw [he]
    exact .inl ⟨_, t, rfl, fun _ heq => by (cases heq), fun _ _ => hr⟩

theorem unanswered {P' : σ → Prop} (h : Ensures P act (fun _ => P') R) :
    Ensures P (Functor.discard act) (fun _ => P') R := by
  intro s hs
  rw [perform_discard]
  rcases h s hs with ⟨a, t, hok, hq⟩ | ⟨e, t, he, hr⟩
  · rw [hok]
    exact .inl ⟨(), t, rfl, hq⟩
  · rw [he]
    exact .inr ⟨e, t, rfl, hr⟩

/-- An operation that is only tried does not fail. -/
theorem tried {P' R' : σ → Prop} (h : Ensures P act (fun _ => P') P') :
    Ensures P (discard act.attempt) (fun _ => P') R' := by
  intro s hs
  rw [perform_discard, perform_attempt]
  rcases h s hs with ⟨a, t, hok, hq⟩ | ⟨e, t, he, hr⟩
  · rw [hok]
    exact .inl ⟨(), t, rfl, hq⟩
  · rw [he]
    exact .inl ⟨(), t, rfl, hr⟩

/-- What holds after an answer as well as after a failure is kept. -/
theorem keeps (h : Ensures P act (fun _ => P) P) : Keeps P act := by
  intro s hs
  rcases h s hs with ⟨a, t, hok, hp⟩ | ⟨e, t, he, hp⟩
  · rw [hok]
    exact hp
  · rw [he]
    exact hp

end Ensures

end Action

end GroupReplication
