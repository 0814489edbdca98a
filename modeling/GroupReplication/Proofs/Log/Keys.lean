/-
Packets with consecutive keys. In such a list the key of a packet says where it stands, so that
what a log does by comparing keys is a matter of taking and dropping.
-/
import GroupReplication.Log.Basic

namespace GroupReplication

namespace Packet

/-- The keys are `key`, `key + 1`, and so on. -/
def KeyedFrom : (key : Nat) → List Packet → Prop
  | _, [] => True
  | key, p :: ps => p.key = key ∧ KeyedFrom (key + 1) ps

variable {key : Nat} {ps qs : List Packet}

theorem keyedFrom_append :
    KeyedFrom key (ps ++ qs) ↔ KeyedFrom key ps ∧ KeyedFrom (key + ps.length) qs := by
  induction ps generalizing key with
  | nil => simp [KeyedFrom]
  | cons p ps ih =>
    simp only [List.cons_append, KeyedFrom, ih, List.length_cons, and_assoc]
    rw [show key + 1 + ps.length = key + (ps.length + 1) by omega]

theorem KeyedFrom.take (h : KeyedFrom key ps) (n : Nat) : KeyedFrom key (ps.take n) := by
  rw [← List.take_append_drop n ps] at h
  exact (keyedFrom_append.1 h).1

theorem KeyedFrom.drop (h : KeyedFrom key ps) (n : Nat) : KeyedFrom (key + n) (ps.drop n) := by
  by_cases hn : n ≤ ps.length
  · rw [← List.take_append_drop n ps] at h
    have := (keyedFrom_append.1 h).2
    rwa [List.length_take, Nat.min_eq_left hn] at this
  · rw [List.drop_eq_nil_of_le (by omega)]
    trivial

theorem keyedFrom_iff : KeyedFrom key ps ↔ ps.map (·.key) = List.range' key ps.length := by
  induction ps generalizing key with
  | nil => simp [KeyedFrom]
  | cons p ps ih =>
    rw [KeyedFrom, ih, List.map_cons, List.length_cons, List.range'_succ, List.cons.injEq]

theorem KeyedFrom.bounds (h : KeyedFrom key ps) {p : Packet} (hp : p ∈ ps) :
    key ≤ p.key ∧ p.key < key + ps.length := by
  have hk : p.key ∈ ps.map (·.key) := List.mem_map_of_mem hp
  rw [keyedFrom_iff.1 h, List.mem_range'_1] at hk
  exact hk

theorem KeyedFrom.exists_mem (h : KeyedFrom key ps) {k : Nat} (hk : key ≤ k)
    (hlt : k < key + ps.length) : ∃ p ∈ ps, p.key = k := by
  have hmem : k ∈ ps.map (·.key) := by
    rw [keyedFrom_iff.1 h, List.mem_range'_1]
    exact ⟨hk, hlt⟩
  exact List.mem_map.1 hmem

theorem KeyedFrom.head? (h : KeyedFrom key ps) (hne : ps ≠ []) :
    ps.head?.map (·.key) = some key := by
  cases ps with
  | nil => exact absurd rfl hne
  | cons p ps => simp [h.1]

theorem KeyedFrom.getLast? (h : KeyedFrom key ps) (hne : ps ≠ []) :
    ps.getLast?.map (·.key) = some (key + ps.length - 1) := by
  have hlen : 0 < ps.length := List.length_pos_iff.2 hne
  rw [← List.getLast?_map, keyedFrom_iff.1 h, List.getLast?_range', if_neg (by omega)]

theorem KeyedFrom.dropWhile_lt (h : KeyedFrom key ps) (k : Nat) :
    ps.dropWhile (·.key < k) = ps.drop (k - key) := by
  induction ps generalizing key with
  | nil => simp
  | cons p ps ih =>
    obtain ⟨hp, hps⟩ := h
    by_cases hk : key < k
    · rw [List.dropWhile_cons_of_pos (by simpa [hp] using hk), ih hps,
        show k - key = k - (key + 1) + 1 by omega, List.drop_succ_cons]
    · rw [List.dropWhile_cons_of_neg (by simpa [hp] using hk), show k - key = 0 by omega,
        List.drop_zero]

theorem KeyedFrom.filter_le (h : KeyedFrom key ps) (k : Nat) :
    ps.filter (k ≤ ·.key) = ps.drop (k - key) := by
  induction ps generalizing key with
  | nil => simp
  | cons p ps ih =>
    obtain ⟨hp, hps⟩ := h
    by_cases hk : key < k
    · rw [List.filter_cons_of_neg (by simp [hp]; omega), ih hps,
        show k - key = k - (key + 1) + 1 by omega, List.drop_succ_cons]
    · have hall : ps.filter (k ≤ ·.key) = ps := List.filter_eq_self.2 fun q hq => by
        have := (hps.bounds hq).1
        simp
        omega
      rw [List.filter_cons_of_pos (by simp [hp]; omega), hall, show k - key = 0 by omega,
        List.drop_zero]

theorem KeyedFrom.filter_upTo (h : KeyedFrom key ps) (k : Nat) :
    ps.filter (·.key ≤ k) = ps.take (k + 1 - key) := by
  induction ps generalizing key with
  | nil => simp
  | cons p ps ih =>
    obtain ⟨hp, hps⟩ := h
    by_cases hk : key ≤ k
    · rw [List.filter_cons_of_pos (by simpa [hp] using hk), ih hps,
        show k + 1 - key = k + 1 - (key + 1) + 1 by omega, List.take_succ_cons]
    · have hnone : ps.filter (·.key ≤ k) = [] := List.filter_eq_nil_iff.2 fun q hq => by
        have := (hps.bounds hq).1
        simp
        omega
      rw [List.filter_cons_of_neg (by simp [hp]; omega), hnone, show k + 1 - key = 0 by omega,
        List.take_zero]

theorem KeyedFrom.takeWhile_upTo (h : KeyedFrom key ps) (k : Nat) :
    ps.takeWhile (·.key ≤ k) = ps.take (k + 1 - key) := by
  induction ps generalizing key with
  | nil => simp
  | cons p ps ih =>
    obtain ⟨hp, hps⟩ := h
    by_cases hk : key ≤ k
    · rw [List.takeWhile_cons_of_pos (by simpa [hp] using hk), ih hps,
        show k + 1 - key = k + 1 - (key + 1) + 1 by omega, List.take_succ_cons]
    · rw [List.takeWhile_cons_of_neg (by simpa [hp] using hk), show k + 1 - key = 0 by omega,
        List.take_zero]

theorem KeyedFrom.exists_behind (h : KeyedFrom key ps) (k : Nat) :
    ∃ rest, ps = ps.filter (·.key ≤ k) ++ rest :=
  ⟨ps.drop (k + 1 - key), by rw [h.filter_upTo, List.take_append_drop]⟩

/-- What comes behind packets is reached only behind all of them. -/
theorem KeyedFrom.filter_upTo_append (h : KeyedFrom key (ps ++ qs)) (k : Nat) :
    qs.filter (·.key ≤ k) = [] ∨ ps.filter (·.key ≤ k) = ps := by
  obtain ⟨hps, hqs⟩ := keyedFrom_append.1 h
  by_cases hk : key + ps.length ≤ k
  · right
    refine List.filter_eq_self.2 fun p hp => decide_eq_true ?_
    have := (hps.bounds hp).2
    omega
  · left
    refine List.filter_eq_nil_iff.2 fun q hq => ?_
    have := (hqs.bounds hq).1
    simp only [decide_eq_true_eq]
    omega

/-- The packets are part of a log that has a packet for each key. -/
theorem KeyedFrom.exists_log (h : KeyedFrom key ps) : ∃ log : Nat → Packet,
    (∀ k, (log k).key = k) ∧ ps = (List.range' key ps.length).map log := by
  induction ps generalizing key with
  | nil => exact ⟨fun k => ⟨k, 1, false, false, .batch []⟩, fun _ => rfl, rfl⟩
  | cons p ps ih =>
    obtain ⟨hp, hps⟩ := h
    obtain ⟨log, hlog, heq⟩ := ih hps
    refine ⟨fun k => if k = key then p else log k, fun k => ?_, ?_⟩
    · dsimp only
      split
      · rename_i hk
        exact hp.trans hk.symm
      · exact hlog k
    · rw [List.length_cons, List.range'_succ, List.map_cons, if_pos rfl]
      congr 1
      refine heq.trans (List.map_congr_left fun k hk => ?_)
      have := (List.mem_range'_1.1 hk).1
      rw [if_neg (by omega)]

end Packet

namespace Log

open Packet

theorem checkContiguous_of_keyedFrom {key : Nat} {ps : List Packet} (h : KeyedFrom key ps) :
    checkContiguous (ps.map (·.key)) = .ok () := by
  induction ps generalizing key with
  | nil => rfl
  | cons p ps ih =>
    cases ps with
    | nil => rfl
    | cons q ps =>
      obtain ⟨hp, hps⟩ := h
      have hrest := ih hps
      obtain ⟨hq, -⟩ := hps
      simp only [List.map_cons] at hrest ⊢
      rw [checkContiguous, if_neg (by omega), if_neg (by omega), hrest]

theorem checkSequence_of_keyedFrom {key : Nat} {ps : List Packet} (h : KeyedFrom key ps) :
    checkSequence (ps.map (·.key)) (ps.map (·.weight)) ⟨ps.length, totalWeight ps⟩ = .ok () := by
  rw [checkSequence, checkContiguous_of_keyedFrom h]
  simp [totalWeight, bind, Except.bind]
  rfl

/-- The key that comes after all that a log ever held. -/
def following (last : Option Nat) : Nat := last.elim 1 (· + 1)

@[simp] theorem following_none : following none = 1 := rfl

@[simp] theorem following_some (k : Nat) : following (some k) = k + 1 := rfl

/-- What a log ever held up to `last` ends in `ps`. -/
structure EndsIn (last : Option Nat) (ps : List Packet) : Prop where
  keyed : KeyedFrom (following last - ps.length) ps
  length_le : ps.length ≤ following last
  eq_nil : last = none → ps = []

namespace EndsIn

variable {last : Option Nat} {ps : List Packet}

theorem nil (last : Option Nat) : EndsIn last [] := ⟨trivial, Nat.zero_le _, fun _ => rfl⟩

/-- Everything up to the last of some consecutive packets ends in them. -/
theorem of_keyed {key : Nat} (h : KeyedFrom key ps) :
    EndsIn (ps.getLast?.map (·.key)) ps ∧
      (ps ≠ [] → following (ps.getLast?.map (·.key)) - ps.length = key) := by
  by_cases hne : ps = []
  · subst hne
    exact ⟨nil none, fun hne => absurd rfl hne⟩
  · have hlen : 0 < ps.length := List.length_pos_iff.2 hne
    have hfirst : following (ps.getLast?.map (·.key)) = key + ps.length := by
      rw [h.getLast? hne, following_some]
      omega
    rw [← Nat.add_sub_cancel (n := key) (m := ps.length), ← hfirst] at h
    refine ⟨⟨h, by omega, fun hnone => ?_⟩, fun _ => by omega⟩
    exact List.getLast?_eq_none_iff.1 (Option.map_eq_none_iff.1 hnone)

theorem drop (h : EndsIn last ps) (n : Nat) : EndsIn last (ps.drop n) where
  keyed := by
    by_cases hn : n ≤ ps.length
    · have hle := h.length_le
      have hdrop := h.keyed.drop n
      rwa [show following last - ps.length + n = following last - (ps.drop n).length by
        rw [List.length_drop]; omega] at hdrop
    · rw [List.drop_eq_nil_of_le (by omega)]
      trivial
  length_le := by
    have := h.length_le
    rw [List.length_drop]
    omega
  eq_nil hnone := by rw [h.eq_nil hnone, List.drop_nil]

/-- The last key ever held is that of the last packet, if there is one. -/
theorem last_eq (h : EndsIn last ps) (hne : ps ≠ []) : last = ps.getLast?.map (·.key) := by
  have hlen : 0 < ps.length := List.length_pos_iff.2 hne
  cases last with
  | none => exact absurd (h.eq_nil rfl) hne
  | some k =>
    have hle := h.length_le
    rw [h.keyed.getLast? hne]
    simp only [following_some] at hle ⊢
    congr 1
    omega

end EndsIn

theorem checkAppend_some {k : Nat} {ps : List Packet} :
    checkAppend (some k) (ps.map (·.key)) = .ok () ↔ KeyedFrom (k + 1) ps := by
  induction ps generalizing k with
  | nil => simp [checkAppend, KeyedFrom]
  | cons p ps ih =>
    simp only [List.map_cons, checkAppend, KeyedFrom]
    split
    · rename_i hp
      rw [ih, hp]
      simp
    · rename_i hp
      simp [hp]

/-- The packets that a removal takes: at most `count`, and none with a key above `frontier`. -/
def removable (ps : List Packet) (count : Nat) (frontier : Option Nat) : List Packet :=
  (ps.take count).takeWhile fun p => frontier.all (p.key ≤ ·)

theorem removable_none (ps : List Packet) (count : Nat) : removable ps count none = ps.take count := by
  rw [removable]
  generalize ps.take count = qs
  induction qs with
  | nil => rfl
  | cons q qs ih => exact congrArg (q :: ·) ih

theorem removable_prefix (ps : List Packet) (count : Nat) (frontier : Option Nat) :
    removable ps count frontier <+: ps :=
  (List.takeWhile_prefix _).trans (List.take_prefix _ _)

/-- The report on the removal of the first `count` packets. -/
def removalReport (ps : List Packet) (count : Nat) : Compaction where
  range := KeyRange.spanning? ((ps.take count).map (·.key))
  removed := (ps.take count).length
  removedWeight := totalWeight (ps.take count)
  remainingWeight := totalWeight (ps.drop count)

/-- What may be added continues what the log ends in. -/
theorem EndsIn.append {last : Option Nat} {ps added : List Packet} (h : EndsIn last ps)
    (hadded : checkAppend last (added.map (·.key)) = .ok ()) :
    EndsIn ((added.getLast?.map (·.key)).or last) (ps ++ added) := by
  cases added with
  | nil => simpa using h
  | cons p added =>
    obtain ⟨key, hkey⟩ : ∃ key, KeyedFrom key (p :: added) ∧ (ps ≠ [] → key = following last) := by
      cases last with
      | none =>
        refine ⟨p.key, ⟨rfl, ?_⟩, fun hne => absurd (h.eq_nil rfl) hne⟩
        exact checkAppend_some.1 (by simpa [checkAppend] using hadded)
      | some k => exact ⟨k + 1, checkAppend_some.1 hadded, fun _ => rfl⟩
    obtain ⟨hkeyed, hafter⟩ := hkey
    have hlast := hkeyed.getLast? (List.cons_ne_nil _ _)
    have hpos : 0 < (p :: added).length := by simp
    rw [hlast, Option.some_or]
    have hps : ps.length ≤ key ∧ KeyedFrom (key - ps.length) ps := by
      by_cases hne : ps = []
      · subst hne
        exact ⟨Nat.zero_le _, trivial⟩
      · have hle := h.length_le
        have hk := h.keyed
        rw [← hafter hne] at hle hk
        exact ⟨hle, hk⟩
    refine ⟨?_, ?_, fun hnone => by simp at hnone⟩
    · have hstart : following (some (key + (p :: added).length - 1)) - (ps ++ p :: added).length
          = key - ps.length := by
        simp only [following_some, List.length_append]
        omega
      rw [hstart, keyedFrom_append]
      refine ⟨hps.2, ?_⟩
      rwa [show key - ps.length + ps.length = key by omega]
    · simp only [following_some, List.length_append]
      omega

end Log

end GroupReplication
