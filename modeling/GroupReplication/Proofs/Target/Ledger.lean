/-
What a target owes to a log, and what its journal says about it. With every packet some effects
become due: its own, or, for a commit without operations, those that were prepared for it. Such a
commit gives up what was prepared before it is carried out, so that one that fails halfway is never
made up for; anything else that fails is carried out anew when the packet comes again.
-/
import GroupReplication.Proofs.Target.Consume

namespace GroupReplication

/-- A commit that does what was prepared for it, as it carries no operations. -/
def Packet.commitsPrepared (p : Packet) : Bool :=
  match p.payload with
  | .transaction .commit txn => txn.operations.isEmpty
  | _ => false

section Due

variable (log : Nat → Packet) (start : Nat)

/-- What is staged behind `count` packets from `start` on, where nothing was before. -/
def stagedAfter : (count : Nat) → Staged
  | 0 => []
  | count + 1 => ((log (start + count)).payload.effects (stagedAfter count)).2

def stagedBefore (key : Nat) : Staged := stagedAfter log start (key - start)

/-- The effects that become due with the packet at this key. -/
def dueAt (key : Nat) : List Effect :=
  ((log key).payload.effects (stagedBefore log start key)).1

end Due

/-- The effects that were settled for the packet at this key, in the order of the journal. -/
def settledAt (journal : List JournalEntry) (key : Nat) : List Effect :=
  (journal.filter fun e => e.key = key && e.outcome.isSettled).map (·.effect)

def FailedAt (journal : List JournalEntry) (key : Nat) : Prop :=
  ∃ e ∈ journal, e.key = key ∧ e.outcome.isSettled = false

section Lemmas

variable {log : Nat → Packet} {start key : Nat} {journal entries : List JournalEntry}

theorem stagedBefore_start : stagedBefore log start start = [] := by
  rw [stagedBefore, Nat.sub_self, stagedAfter]

theorem stagedBefore_succ (h : start ≤ key) : stagedBefore log start (key + 1)
    = ((log key).payload.effects (stagedBefore log start key)).2 := by
  rw [stagedBefore, show key + 1 - start = key - start + 1 by omega, stagedAfter, stagedBefore,
    show start + (key - start) = key by omega]

theorem settledAt_append : settledAt (journal ++ entries) key
    = settledAt journal key ++ settledAt entries key := by
  rw [settledAt, List.filter_append, List.map_append, settledAt, settledAt]

theorem settledAt_other {other : Nat} (h : ∀ e ∈ entries, e.key = other) (hne : key ≠ other) :
    settledAt entries key = [] := by
  rw [settledAt, List.map_eq_nil_iff, List.filter_eq_nil_iff]
  intro e he
  simp [h e he, Ne.symm hne]

theorem settledAt_all (h : ∀ e ∈ entries, e.key = key)
    (hall : ∀ e ∈ entries, e.outcome.isSettled = true) :
    settledAt entries key = entries.map (·.effect) := by
  rw [settledAt, List.filter_eq_self.2]
  intro e he
  simp [h e he, hall e he]

theorem settledAt_none (h : ∀ e ∈ journal, e.key ≠ key) : settledAt journal key = [] := by
  rw [settledAt, List.map_eq_nil_iff, List.filter_eq_nil_iff]
  intro e he
  simp [h e he]

theorem failedAt_append : FailedAt (journal ++ entries) key
    ↔ FailedAt journal key ∨ FailedAt entries key := by
  simp only [FailedAt, List.mem_append, or_and_right, exists_or]

theorem FailedAt.key_eq {other : Nat} (h : FailedAt entries key) (hkeys : ∀ e ∈ entries, e.key = other) :
    key = other := by
  obtain ⟨e, he, hkey, -⟩ := h
  rw [← hkey, hkeys e he]

theorem Table.erase_erase {α : Type} (k : UInt64) (t : Table UInt64 α) :
    (t.erase k).erase k = t.erase k := by
  rw [Table.erase, Table.erase, List.filter_filter]
  congr 1
  funext e
  simp

theorem commitsPrepared_iff {p : Packet} : p.commitsPrepared = true
    ↔ ∃ id, p.payload = .transaction .commit ⟨id, []⟩ := by
  constructor
  · intro h
    unfold Packet.commitsPrepared at h
    split at h
    · rename_i txn hpayload
      obtain ⟨id, operations⟩ := txn
      obtain rfl : operations = [] := List.isEmpty_iff.1 h
      exact ⟨id, hpayload⟩
    · cases h
  · rintro ⟨id, hpayload⟩
    simp [Packet.commitsPrepared, hpayload]

/-- Packets of a bulk are not phases of a transaction. -/
theorem isPhase_of_bulk {p : Packet} (h : p.bulk.isSome = true) : p.payload.isPhase = false := by
  unfold Packet.bulk at h
  split at h
  · rename_i hpayload
    rw [hpayload]
    rfl
  · cases h

theorem commitsPrepared_of_plain {p : Packet} (h : p.payload.isPhase = false) :
    p.commitsPrepared = false := by
  cases hcommits : p.commitsPrepared with
  | false => rfl
  | true =>
    obtain ⟨id, hpayload⟩ := commitsPrepared_iff.1 hcommits
    rw [hpayload] at h
    cases h

end Lemmas

/-! ## What the journal tells -/

/-- The state of the accounts when everything up to `key` is confirmed, where `journal` is what was
journaled since delivery started at `start` with nothing staged. -/
structure Settles (log : Nat → Packet) (start : Nat) (journal : List JournalEntry) (key : Nat)
    (staged : Staged) : Prop where
  started : 1 ≤ start
  reached : start ≤ key + 1
  told : ∀ k, start ≤ k → k ≤ key → ((dueAt log start k).Sublist (settledAt journal k) ↔
    ((log k).commitsPrepared = true → ¬ FailedAt journal k))
  ahead : ∀ e ∈ journal, (log e.key).commitsPrepared = true → e.key ≤ key + 1
  staged : (staged = stagedBefore log start (key + 1) ∧
      ((log (key + 1)).commitsPrepared = true → ∀ e ∈ journal, e.key ≠ key + 1)) ∨
    ∃ txn, (log (key + 1)).payload = .transaction .commit txn ∧
      staged = (stagedBefore log start (key + 1)).erase txn.id ∧
      (txn.operations = [] → FailedAt journal (key + 1) ∧
        (settledAt journal (key + 1)).length < (dueAt log start (key + 1)).length)

/-- Nothing is owed where delivery starts. -/
theorem settles_start (log : Nat → Packet) {start : Nat} (h : 1 ≤ start) :
    Settles log start [] (start - 1) [] := by
  have hkey : start - 1 + 1 = start := by omega
  refine ⟨h, by omega, fun k hk hle => by omega, fun e he => (nomatch he), .inl ⟨?_, ?_⟩⟩
  · rw [hkey, stagedBefore_start]
  · exact fun _ e he => nomatch he

namespace Settles

variable {log : Nat → Packet} {start key : Nat} {journal entries : List JournalEntry}
  {staged : Staged}

/-- Entries for a later packet change nothing that was told. -/
theorem told_append (h : Settles log start journal key staged) {k : Nat} (hk : start ≤ k)
    (hle : k ≤ key) {other : Nat} (hkeys : ∀ e ∈ entries, e.key = other) (hne : k ≠ other) :
    (dueAt log start k).Sublist (settledAt (journal ++ entries) k) ↔
      ((log k).commitsPrepared = true → ¬ FailedAt (journal ++ entries) k) := by
  rw [settledAt_append, settledAt_other hkeys hne, List.append_nil, failedAt_append]
  have hnot : ¬ FailedAt entries k := fun hfailed => hne (hfailed.key_eq hkeys)
  simp only [hnot, or_false]
  exact h.told k hk hle

/-- What the next packet does with what is staged, and with what it leaves staged. After a commit
that failed, the operations that were prepared for it are gone. -/
theorem effects_next (h : Settles log start journal key staged) :
    ((log (key + 1)).payload.effects staged).2 = stagedBefore log start (key + 2) ∧
      (((log (key + 1)).payload.effects staged).1 = dueAt log start (key + 1) ∧
          ((log (key + 1)).commitsPrepared = true → ∀ e ∈ journal, e.key ≠ key + 1) ∨
        (log (key + 1)).commitsPrepared = true ∧
          ((log (key + 1)).payload.effects staged).1 = [] ∧ FailedAt journal (key + 1) ∧
          (settledAt journal (key + 1)).length < (dueAt log start (key + 1)).length) := by
  rw [stagedBefore_succ h.reached]
  rcases h.staged with ⟨hstaged, hnone⟩ | ⟨txn, hpayload, hstaged, hfailed⟩
  · rw [hstaged]
    exact ⟨rfl, .inl ⟨rfl, hnone⟩⟩
  · obtain ⟨id, operations⟩ := txn
    rw [hstaged, hpayload, dueAt, hpayload]
    refine ⟨Table.erase_erase id _, ?_⟩
    cases operations with
    | nil =>
      obtain ⟨hfailed, hfewer⟩ := hfailed rfl
      rw [dueAt, hpayload] at hfewer
      refine .inr ⟨commitsPrepared_iff.2 ⟨id, hpayload⟩, ?_, hfailed, hfewer⟩
      simp [Payload.effects]
    | cons op ops =>
      refine .inl ⟨rfl, fun hcommits => ?_⟩
      simp [Packet.commitsPrepared, hpayload] at hcommits

/-- A packet that was settled as a whole takes the accounts one key further. -/
theorem next (h : Settles log start journal key staged) (hkeys : ∀ e ∈ entries, e.key = key + 1)
    (horder : entries.map (·.effect) = ((log (key + 1)).payload.effects staged).1)
    (hall : ∀ e ∈ entries, e.outcome.isSettled = true) :
    Settles log start (journal ++ entries) (key + 1)
      ((log (key + 1)).payload.effects staged).2 := by
  have hreached := h.reached
  obtain ⟨hstaged, heffects⟩ := h.effects_next
  have hnew : ¬ FailedAt entries (key + 1) := by
    rintro ⟨e, he, -, hopen⟩
    rw [hall e he] at hopen
    cases hopen
  have hsettled : settledAt (journal ++ entries) (key + 1) = settledAt journal (key + 1)
      ++ ((log (key + 1)).payload.effects staged).1 := by
    rw [settledAt_append, settledAt_all hkeys hall, horder]
  refine ⟨h.started, by omega, fun k hk hle => ?_, fun e he hcommits => ?_, .inl ⟨hstaged, ?_⟩⟩
  · by_cases hlast : k = key + 1
    · subst hlast
      rw [hsettled, failedAt_append]
      simp only [hnew, or_false]
      rcases heffects with ⟨hdue, hnone⟩ | ⟨hcommits, hgone, hfailed, hfewer⟩
      · rw [hdue]
        refine ⟨fun _ hcommits hfailed => ?_, fun _ => List.sublist_append_right _ _⟩
        obtain ⟨e, he, hkey, -⟩ := hfailed
        exact hnone hcommits e he hkey
      · rw [hgone, List.append_nil]
        refine ⟨fun hsub => ?_, fun hnot => absurd hfailed (hnot hcommits)⟩
        have := hsub.length_le
        omega
    · exact h.told_append hk (by omega) hkeys hlast
  · rcases List.mem_append.1 he with he | he
    · have := h.ahead e he hcommits
      omega
    · rw [hkeys e he]
      omega
  · intro hcommits e he hkey
    rcases List.mem_append.1 he with he | he
    · have := h.ahead e he (by rw [hkey]; exact hcommits)
      omega
    · have := hkeys e he
      omega

/-- A packet of which something failed leaves the accounts at the key before it. What a commit had
prepared for it is gone then. -/
theorem broken (h : Settles log start journal key staged)
    (hkeys : ∀ e ∈ entries, e.key = key + 1)
    (hfewer : (entries.filter (·.outcome.isSettled)).length
      < ((log (key + 1)).payload.effects staged).1.length)
    (hfailed : ∃ e ∈ entries, e.outcome.isSettled = false) :
    Settles log start (journal ++ entries) key ((log (key + 1)).payload.effects staged).2 := by
  have hreached := h.reached
  refine ⟨h.started, h.reached, fun k hk hle => h.told_append hk hle hkeys (by omega),
    fun e he hcommits => ?_, ?_⟩
  · rcases List.mem_append.1 he with he | he
    · exact h.ahead e he hcommits
    · exact Nat.le_of_eq (hkeys e he)
  · cases hpayload : (log (key + 1)).payload with
    | transaction phase txn =>
      cases phase with
      | prepare | abort =>
        rw [hpayload] at hfewer
        exact absurd hfewer (Nat.not_lt_zero _)
      | commit =>
        refine .inr ⟨txn, rfl, ?_, fun hnone => ⟨?_, ?_⟩⟩
        · rcases h.staged with ⟨hstaged, -⟩ | ⟨txn', hpayload', hstaged, -⟩
          · rw [hstaged]
            rfl
          · rw [hpayload] at hpayload'
            cases hpayload'
            rw [hstaged]
            exact Table.erase_erase _ _
        · obtain ⟨e, he, hopen⟩ := hfailed
          exact ⟨e, List.mem_append_right _ he, hkeys e he, hopen⟩
        · rcases h.effects_next.2 with ⟨hdue, hfirst⟩ | ⟨-, hgone, -⟩
          · have hcommits : (log (key + 1)).commitsPrepared = true := by
              simp [Packet.commitsPrepared, hpayload, hnone]
            have hentries : settledAt entries (key + 1)
                = (entries.filter (·.outcome.isSettled)).map (·.effect) := by
              rw [settledAt]
              congr 1
              exact List.filter_congr fun e he => by simp [hkeys e he]
            rw [settledAt_append, settledAt_none (hfirst hcommits), List.nil_append, hentries,
              List.length_map, ← hdue]
            exact hfewer
          · rw [hgone] at hfewer
            exact absurd hfewer (Nat.not_lt_zero _)
    | _ =>
      have hplain : (log (key + 1)).payload.isPhase = false := by
        rw [hpayload]
        rfl
      rw [← hpayload, Payload.effects_staged hplain]
      rcases h.staged with ⟨hstaged, -⟩ | ⟨txn, hcommit, -⟩
      · refine .inl ⟨hstaged, fun hcommits => ?_⟩
        rw [commitsPrepared_of_plain hplain] at hcommits
        cases hcommits
      · rw [hcommit] at hplain
        cases hplain

/-- Between two packets of a bulk the accounts are as before the first, but for what was settled. -/
theorem back {before : List JournalEntry} {old : Staged} (h : Settles log start before key old)
    (h' : Settles log start journal (key + 1) staged)
    (hbulk : (log (key + 1)).bulk.isSome = true) (hbulk' : (log (key + 2)).bulk.isSome = true) :
    Settles log start journal key staged := by
  have hplain := isPhase_of_bulk hbulk
  have hplain' := isPhase_of_bulk hbulk'
  refine ⟨h.started, h.reached, fun k hk hle => h'.told k hk (by omega), fun e he hcommits => ?_, ?_⟩
  · have hle := h'.ahead e he hcommits
    have hne : e.key ≠ key + 2 := fun heq => by
      rw [heq, commitsPrepared_of_plain hplain'] at hcommits
      cases hcommits
    omega
  · rcases h'.staged with ⟨hstaged, -⟩ | ⟨txn, hcommit, -⟩
    · refine .inl ⟨?_, fun hcommits => ?_⟩
      · rw [hstaged, stagedBefore_succ h.reached, Payload.effects_staged hplain]
      · rw [commitsPrepared_of_plain hplain] at hcommits
        cases hcommits
    · rw [hcommit] at hplain'
      cases hplain'

/-- Settling a confirmed packet anew changes nothing that was told, unless it is a phase of a
transaction. -/
theorem again (h : Settles log start journal key staged) {other : Nat} (hle : other ≤ key)
    (hplain : (log other).payload.isPhase = false) (hkeys : ∀ e ∈ entries, e.key = other) :
    Settles log start (journal ++ entries) key staged := by
  have hcommits := commitsPrepared_of_plain hplain
  have hahead : settledAt (journal ++ entries) (key + 1) = settledAt journal (key + 1) := by
    rw [settledAt_append, settledAt_other hkeys (by omega), List.append_nil]
  refine ⟨h.started, h.reached, fun k hk hk' => ?_, fun e he hcommit => ?_, ?_⟩
  · by_cases hsame : k = other
    · subst hsame
      have htold := (h.told k hk hk').2 fun hcommit => by rw [hcommits] at hcommit; cases hcommit
      refine iff_of_true ?_ fun hcommit => ?_
      · rw [settledAt_append]
        exact htold.trans (List.sublist_append_left _ _)
      · rw [hcommits] at hcommit
        cases hcommit
    · exact h.told_append hk hk' hkeys hsame
  · rcases List.mem_append.1 he with he | he
    · exact h.ahead e he hcommit
    · rw [hkeys e he]
      omega
  · rcases h.staged with ⟨hstaged, hnone⟩ | ⟨txn, hcommit, hstaged, hfailed⟩
    · refine .inl ⟨hstaged, fun hnext e he => ?_⟩
      rcases List.mem_append.1 he with he | he
      · exact hnone hnext e he
      · rw [hkeys e he]
        omega
    · refine .inr ⟨txn, hcommit, hstaged, fun hops => ?_⟩
      obtain ⟨hfail, hfewer⟩ := hfailed hops
      exact ⟨failedAt_append.2 (.inl hfail), by rw [hahead]; exact hfewer⟩

end Settles

/-- The accounts of a target since its journal had `since` entries. -/
def Told {ρ : Type} (log : Nat → Packet) (start since : Nat) (key : Nat) (w : Work ρ) : Prop :=
  since ≤ w.journal.length ∧ Settles log start (w.journal.drop since) key w.staged

section Told

variable {ρ : Type} {A : Applier ρ} {settings : ConflictSettings} {log : Nat → Packet}
  {start since : Nat}

theorem drop_journal {journal : List JournalEntry} (h : since ≤ journal.length)
    (entries : List JournalEntry) :
    (journal ++ entries).drop since = journal.drop since ++ entries :=
  List.drop_append_of_le_length h

theorem progress_told (hlog : ∀ k, (log k).key = k) :
    Progress A settings log (Told (ρ := ρ) log start since) where
  next h happlies := by
    obtain ⟨hle, hsettles⟩ := h
    cases happlies with
    | intro hcarried =>
      cases hcarried with
      | settled hkeys horder hall =>
        refine ⟨?_, ?_⟩
        · rw [List.length_append]
          omega
        · rw [drop_journal hle]
          exact hsettles.next (fun e he => (hkeys e he).trans (hlog _)) horder hall
  broken h happlies := by
    obtain ⟨hle, hsettles⟩ := h
    cases happlies with
    | intro hcarried =>
      cases hcarried with
      | broken hkeys hfewer hfailed =>
        refine ⟨?_, ?_⟩
        · rw [List.length_append]
          omega
        · rw [drop_journal hle]
          exact hsettles.broken (fun e he => (hkeys e he).trans (hlog _)) hfewer hfailed
  back _ hbulk hbulk' h h' := ⟨h'.1, h.2.back h'.2 hbulk hbulk'⟩

theorem Told.again {key : Nat} {p : Packet} {w w' : Work ρ}
    {result : Except Error Unit} (h : Told log start since key w) (hp : p = log p.key)
    (hle : p.key ≤ key) (hplain : p.payload.isPhase = false)
    (happlies : Applies A settings p w result w') : Told log start since key w' := by
  obtain ⟨hlen, hsettles⟩ := h
  have hplain' : (log p.key).payload.isPhase = false := by rw [← hp]; exact hplain
  have hgrown : ∀ {replica : ρ} {entries}, (∀ e ∈ entries, e.key = p.key) →
      Told log start since key
        ⟨(p.payload.effects w.staged).2, replica, w.journal ++ entries⟩ := by
    intro replica entries hkeys
    refine ⟨?_, ?_⟩
    · rw [List.length_append]
      omega
    · rw [drop_journal hlen, Payload.effects_staged hplain]
      exact hsettles.again hle hplain' hkeys
  cases happlies with
  | intro hcarried =>
    cases hcarried with
    | settled hkeys _ _ => exact hgrown hkeys
    | broken hkeys _ _ _ => exact hgrown hkeys

end Told

end GroupReplication
