/-
Operations that may fail and keep what they changed before they failed.
-/
import GroupReplication.Error

namespace GroupReplication

abbrev Action (σ α : Type) := ExceptT Error (StateM σ) α

namespace Action

variable {σ τ α : Type}

/-- The outcome of an operation on `s`, and what it leaves of `s`. -/
def perform (act : Action σ α) (s : σ) : Except Error α × σ := act s

/-- An operation on a part of the state. -/
def within (part : σ → τ) (replace : τ → σ → σ) (act : Action τ α) : Action σ α := fun s =>
  let (r, t) := perform act (part s)
  (r, replace t s)

/-- Runs to the end in any case, and says whether it failed. -/
def attempt (act : Action σ α) : Action σ (Except Error α) := fun s =>
  let (r, s) := perform act s
  (.ok r, s)

/-- Fails or answers as already decided, and changes nothing. -/
def decided (r : Except Error α) : Action σ α := fun s => (r, s)

@[simp] theorem perform_pure (a : α) (s : σ) : perform (pure a) s = (.ok a, s) := rfl

@[simp] theorem perform_throw (e : Error) (s : σ) :
    perform (throw e : Action σ α) s = (.error e, s) := rfl

theorem perform_bind {β : Type} (act : Action σ α) (f : α → Action σ β) (s : σ) :
    perform (act >>= f) s =
      match perform act s with
      | (.ok a, s) => perform (f a) s
      | (.error e, s) => (.error e, s) := by
  simp only [perform, bind, ExceptT.bind, ExceptT.mk, StateT.bind]
  rcases act s with ⟨_ | _, _⟩ <;> rfl

@[simp] theorem perform_get (s : σ) : perform (get : Action σ σ) s = (.ok s, s) := rfl

@[simp] theorem perform_modify (f : σ → σ) (s : σ) :
    perform (modify f : Action σ PUnit) s = (.ok (), f s) := rfl

@[simp] theorem perform_decided (r : Except Error α) (s : σ) :
    perform (decided r) s = (r, s) := rfl

end Action

end GroupReplication
