/-
Values under distinct keys, in the order in which the keys came.
-/
namespace GroupReplication

abbrev Table (κ α : Type) := List (κ × α)

namespace Table

variable {κ α : Type} [DecidableEq κ]

def get? (k : κ) : Table κ α → Option α
  | [] => none
  | (j, a) :: t => if j = k then some a else get? k t

/-- Replaces the value under `k`, or adds it behind the others. -/
def insert (k : κ) (a : α) : Table κ α → Table κ α
  | [] => [(k, a)]
  | (j, b) :: t => if j = k then (k, a) :: t else (j, b) :: insert k a t

def erase (k : κ) (t : Table κ α) : Table κ α := t.filter (fun e => e.1 ≠ k)

def keys (t : Table κ α) : List κ := t.map (·.1)

def values (t : Table κ α) : List α := t.map (·.2)

def mapValues {β : Type} (f : α → β) (t : Table κ α) : Table κ β :=
  t.map (fun e => (e.1, f e.2))

/-- The names of a table in the order of their code points. -/
def sortedKeys (t : Table String α) : List String :=
  (keys t).mergeSort (fun a b => !decide (b < a))

/-- The rows of a table in the order of their names. -/
def sorted (t : Table String α) : Table String α :=
  t.mergeSort (fun a b => !decide (b.1 < a.1))

@[simp] theorem get?_nil (k : κ) : get? k ([] : Table κ α) = none := rfl

@[simp] theorem get?_insert_self (k : κ) (a : α) (t : Table κ α) :
    get? k (insert k a t) = some a := by
  induction t with
  | nil => simp [insert, get?]
  | cons e t ih =>
    obtain ⟨j, b⟩ := e
    by_cases h : j = k <;> simp [insert, get?, h, ih]

theorem get?_insert_other {k k' : κ} (a : α) (t : Table κ α) (hne : k' ≠ k) :
    get? k' (insert k a t) = get? k' t := by
  induction t with
  | nil => simp [insert, get?, Ne.symm hne]
  | cons e t ih =>
    obtain ⟨j, b⟩ := e
    by_cases h : j = k
    · subst h; simp [insert, get?, Ne.symm hne]
    · simp [insert, get?, h, ih]

@[simp] theorem get?_erase_self (k : κ) (t : Table κ α) : get? k (erase k t) = none := by
  induction t with
  | nil => rfl
  | cons e t ih =>
    obtain ⟨j, b⟩ := e
    by_cases h : j = k
    · simpa [erase, h] using ih
    · simpa [erase, h, get?] using ih

theorem get?_erase_other {k k' : κ} (t : Table κ α) (hne : k' ≠ k) :
    get? k' (erase k t) = get? k' t := by
  induction t with
  | nil => rfl
  | cons e t ih =>
    obtain ⟨j, b⟩ := e
    by_cases h : j = k
    · subst h
      simpa [erase, get?, Ne.symm hne] using ih
    · have he : erase k ((j, b) :: t) = (j, b) :: erase k t := by simp [erase, h]
      rw [he]
      by_cases h' : j = k' <;> simp [get?, h', ih]

theorem insert_insert (k : κ) (a b : α) (t : Table κ α) : insert k a (insert k b t) = insert k a t := by
  induction t with
  | nil => simp [insert]
  | cons e t ih =>
    obtain ⟨j, c⟩ := e
    by_cases hj : j = k <;> simp [insert, hj, ih]

theorem insert_of_get? {k : κ} {a : α} {t : Table κ α} (h : get? k t = some a) : insert k a t = t := by
  induction t with
  | nil => cases h
  | cons e t ih =>
    obtain ⟨j, b⟩ := e
    by_cases hj : j = k
    · simp only [get?, if_pos hj, Option.some.injEq] at h
      simp [insert, hj, h]
    · simp only [get?, if_neg hj] at h
      simp [insert, hj, ih h]

theorem erase_of_get? {k : κ} {t : Table κ α} (h : get? k t = none) : erase k t = t := by
  induction t with
  | nil => rfl
  | cons e t ih =>
    obtain ⟨j, b⟩ := e
    by_cases hj : j = k
    · simp [get?, hj] at h
    · simp only [get?, if_neg hj] at h
      simpa [erase, hj] using ih h

theorem get?_mapValues {β : Type} (f : α → β) (k : κ) (t : Table κ α) :
    get? k (mapValues f t) = (get? k t).map f := by
  induction t with
  | nil => rfl
  | cons e t ih =>
    obtain ⟨j, a⟩ := e
    by_cases h : j = k
    · simp [mapValues, get?, h]
    · simpa [mapValues, get?, h] using ih

theorem mem_values_of_get? {k : κ} {a : α} {t : Table κ α} (h : get? k t = some a) :
    a ∈ values t := by
  induction t with
  | nil => cases h
  | cons e t ih =>
    obtain ⟨j, b⟩ := e
    by_cases hj : j = k
    · simp only [get?, if_pos hj, Option.some.injEq] at h
      simp [values, h]
    · simp only [get?, if_neg hj] at h
      exact List.mem_cons_of_mem _ (ih h)

end Table

end GroupReplication
