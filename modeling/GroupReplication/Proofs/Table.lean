/-
The keys of a table, each of which stands in it once, and what changing all its values makes of it.
-/
import GroupReplication.Table

namespace GroupReplication

namespace Table

variable {κ α : Type} [DecidableEq κ]

theorem mem_keys_insert {j k : κ} {a : α} {t : Table κ α} :
    j ∈ keys (insert k a t) ↔ j = k ∨ j ∈ keys t := by
  induction t with
  | nil => simp [insert, keys]
  | cons e t ih =>
    obtain ⟨i, b⟩ := e
    by_cases hi : i = k
    · simp [insert, keys, hi]
    · simp only [insert, if_neg hi, keys, List.map_cons, List.mem_cons] at ih ⊢
      rw [ih]
      exact or_left_comm

theorem nodup_keys_insert {k : κ} {a : α} {t : Table κ α} (h : t.keys.Nodup) :
    (keys (insert k a t)).Nodup := by
  induction t with
  | nil => exact List.nodup_cons.2 ⟨List.not_mem_nil, List.nodup_nil⟩
  | cons e t ih =>
    obtain ⟨j, b⟩ := e
    obtain ⟨hj, ht⟩ := List.nodup_cons.1 h
    by_cases hk : j = k
    · rw [insert, if_pos hk]
      exact List.nodup_cons.2 ⟨hk ▸ hj, ht⟩
    · rw [insert, if_neg hk]
      exact List.nodup_cons.2 ⟨fun hmem => (mem_keys_insert.1 hmem).elim hk hj, ih ht⟩

theorem get?_eq_some_iff_mem {k : κ} {a : α} {t : Table κ α} (h : t.keys.Nodup) :
    get? k t = some a ↔ (k, a) ∈ t := by
  induction t with
  | nil => simp
  | cons e t ih =>
    obtain ⟨j, b⟩ := e
    obtain ⟨hj, ht⟩ := List.nodup_cons.1 h
    by_cases hk : j = k
    · subst hk
      have hother : (j, a) ∉ t := fun hmem => hj (List.mem_map.2 ⟨_, hmem, rfl⟩)
      simp only [get?, if_true, Option.some.injEq, List.mem_cons, Prod.mk.injEq, true_and, hother,
        or_false]
      exact eq_comm
    · simp only [get?, if_neg hk, ih ht, List.mem_cons, Prod.mk.injEq, Ne.symm hk, false_and, false_or]

theorem exists_get? {t : Table κ α} (h : t ≠ []) : ∃ k a, get? k t = some a := by
  cases t with
  | nil => exact absurd rfl h
  | cons e t => exact ⟨e.1, e.2, if_pos rfl⟩

theorem get?_filter {p : κ → Bool} {k : κ} {a : α} {t : Table κ α} (h : t.keys.Nodup)
    (hget : get? k (t.filter fun e => p e.1) = some a) : p k = true ∧ get? k t = some a := by
  have hsub : (keys (t.filter fun e => p e.1)).Nodup := h.sublist (List.filter_sublist.map _)
  obtain ⟨hmem, hp⟩ := List.mem_filter.1 ((get?_eq_some_iff_mem hsub).1 hget)
  exact ⟨hp, (get?_eq_some_iff_mem h).2 hmem⟩

theorem mapValues_insert {β : Type} (f : α → β) (k : κ) (a : α) (t : Table κ α) :
    mapValues f (insert k a t) = insert k (f a) (mapValues f t) := by
  induction t with
  | nil => rfl
  | cons e t ih =>
    obtain ⟨j, b⟩ := e
    by_cases hk : j = k
    · simp [mapValues, insert, hk]
    · simpa [mapValues, insert, hk] using ih

theorem mapValues_erase {β : Type} (f : α → β) (k : κ) (t : Table κ α) :
    mapValues f (erase k t) = erase k (mapValues f t) := by
  rw [mapValues, mapValues, erase, erase, List.filter_map]
  rfl

end Table

end GroupReplication
