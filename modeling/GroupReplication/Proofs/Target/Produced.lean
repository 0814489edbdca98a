/-
What the packets of one source make of its entries on a copy that other sources work on as well. The others
touch entries under other uids, and can tell of types. So the entries of the source are those that its own
packets make of a copy of their own, each settled once in the order of the keys, and once more whenever it
comes again.
-/
import GroupReplication.Proofs.Replica.Local
import GroupReplication.Proofs.Target.Replay
import GroupReplication.Proofs.Target.Upheld

namespace GroupReplication

open GroupReplication.Action

/-! ## Packets of other sources -/

/-- The operations that a payload carries. -/
def Payload.operations : Payload → List EntryOperation
  | .entry op => [op]
  | .batch ops => ops
  | .transaction _ txn => txn.operations
  | .typeIndex _ | .typeIntroduce _ => []

/-- All operations of the packet are on other uids. -/
def Packet.Apart (own : String → Prop) (p : Packet) : Prop :=
  ∀ op ∈ p.payload.operations, ¬ own op.uid

/-- All operations that are staged are on other uids. -/
def Staged.Apart (own : String → Prop) (staged : Staged) : Prop :=
  ∀ id ops, staged.get? id = some ops → ∀ op ∈ ops, ¬ own op.uid

section

variable {own : String → Prop} {staged : Staged} {p : Packet}

theorem Staged.apart_erase (h : Staged.Apart own staged) (id : UInt64) :
    Staged.Apart own (staged.erase id) := by
  intro other ops hops
  by_cases hother : other = id
  · rw [hother, Table.get?_erase_self] at hops
    cases hops
  · rw [Table.get?_erase_other _ hother] at hops
    exact h other ops hops

theorem Staged.apart_insert (h : Staged.Apart own staged) (id : UInt64) {ops : List EntryOperation}
    (hops : ∀ op ∈ ops, ¬ own op.uid) : Staged.Apart own (staged.insert id ops) := by
  intro other ops' hops'
  by_cases hother : other = id
  · rw [hother, Table.get?_insert_self] at hops'
    cases hops'
    exact hops
  · rw [Table.get?_insert_other _ _ hother] at hops'
    exact h other ops' hops'

/-- What a packet on other uids asks for is on other uids, and so is what it stages. -/
theorem Packet.Apart.effects (hp : p.Apart own) (hstaged : Staged.Apart own staged) :
    (∀ effect ∈ (p.payload.effects staged).1, effect.Apart own) ∧
      Staged.Apart own (p.payload.effects staged).2 := by
  have hentries : ∀ {ops : List EntryOperation}, (∀ op ∈ ops, ¬ own op.uid) →
      ∀ effect ∈ ops.map Effect.entry, effect.Apart own := by
    intro ops hops effect heffect
    obtain ⟨op, hop, rfl⟩ := List.mem_map.1 heffect
    exact hops op hop
  unfold Packet.Apart at hp
  cases hpayload : p.payload with
  | entry op =>
    rw [hpayload] at hp
    exact ⟨hentries hp, hstaged⟩
  | batch ops =>
    rw [hpayload] at hp
    exact ⟨hentries hp, hstaged⟩
  | typeIndex index => exact ⟨fun effect heffect => by cases List.mem_singleton.1 heffect; trivial, hstaged⟩
  | typeIntroduce d => exact ⟨fun effect heffect => by cases List.mem_singleton.1 heffect; trivial, hstaged⟩
  | transaction phase txn =>
    rw [hpayload] at hp
    cases phase with
    | prepare => exact ⟨fun _ heffect => (nomatch heffect), Staged.apart_insert hstaged _ hp⟩
    | abort => exact ⟨fun _ heffect => (nomatch heffect), Staged.apart_erase hstaged _⟩
    | commit =>
      refine ⟨hentries fun op hop => ?_, Staged.apart_erase hstaged _⟩
      split at hop
      · cases hprepared : staged.get? txn.id with
        | none =>
          rw [hprepared] at hop
          cases hop
        | some ops =>
          rw [hprepared] at hop
          exact hstaged txn.id ops hprepared op hop
      · exact hp op hop

/-- Only a packet that is all about a type introduces it. -/
theorem Packet.payload_of_introduce {d : TypeDescriptor}
    (h : Effect.introduce d ∈ (p.payload.effects staged).1) : p.payload = .typeIntroduce d := by
  have hnever : ∀ ops : List EntryOperation, Effect.introduce d ∉ ops.map .entry := by
    intro ops hmem
    obtain ⟨op, -, heq⟩ := List.mem_map.1 hmem
    cases heq
  cases hpayload : p.payload with
  | entry op => rw [hpayload] at h; exact absurd h (hnever [op])
  | batch ops => rw [hpayload] at h; exact absurd h (hnever ops)
  | typeIndex index => rw [hpayload] at h; cases List.mem_singleton.1 h
  | typeIntroduce d' => rw [hpayload] at h; cases List.mem_singleton.1 h; rfl
  | transaction phase txn =>
    rw [hpayload] at h
    cases phase with
    | prepare => cases h
    | commit => exact absurd h (hnever _)
    | abort => cases h

/-- What is held back tells of no types. -/
theorem TargetChannel.Exact.held_plain {c : TargetChannel} (h : c.Exact) :
    c.Holds fun p => ∀ d, p.payload ≠ .typeIntroduce d := by
  rcases h.settled_or_holdsBack with hsettled | ⟨id, held, hbulk, -, hofBulk, -⟩
  · exact hsettled.holds _
  · intro bulk hsome p hp d hpayload
    rw [hbulk] at hsome
    cases hsome
    have hid := hofBulk p hp
    rw [Packet.bulk, hpayload] at hid
    cases hid

end

/-- All effects of a packet that was applied were settled. -/
theorem Applies.settle {ρ : Type} {A : Applier ρ} {settings : ConflictSettings} {p : Packet} {w w' : Work ρ}
    (h : Applies A settings p w (.ok ()) w') :
    (w'.staged, w'.replica) = p.settle A settings (w.staged, w.replica) := by
  cases h with
  | intro hcarried =>
    cases hcarried with
    | settled => rfl

/-- Packets on other uids leave entries alone. What they change is which types are known. -/
theorem upheld_apart (settings : ConflictSettings) (own : String → Prop) (told : TypeDescriptor → Prop)
    (start : Replica) :
    Upheld settings (fun p => p.Apart own ∧ ∀ d, p.payload = .typeIntroduce d → told d) True fun _ w =>
      Staged.Apart own w.staged ∧
        ∃ ds, (∀ d ∈ ds, told d) ∧ (start.informed ds).SameOn own w.replica := by
  have hkept : ∀ {w w' : Work Replica} {p : Packet},
      p.Apart own ∧ (∀ d, p.payload = .typeIntroduce d → told d) →
      (Staged.Apart own w.staged ∧
        ∃ ds, (∀ d ∈ ds, told d) ∧ (start.informed ds).SameOn own w.replica) →
      Applies Replica.applier settings p w (.ok ()) w' →
      Staged.Apart own w'.staged ∧
        ∃ ds, (∀ d ∈ ds, told d) ∧ (start.informed ds).SameOn own w'.replica := by
    rintro w w' p ⟨hp, htells⟩ ⟨hstaged, ds, hds, hsame⟩ happlies
    obtain ⟨heffects, hstaged'⟩ := hp.effects hstaged
    obtain ⟨more, hmore, hsame'⟩ :=
      Replica.informed_settleAll settings p.transient heffects w.replica
    have hsettled := happlies.settle
    rw [Packet.settle] at hsettled
    obtain ⟨hstagedEq, hreplicaEq⟩ := Prod.mk.inj hsettled
    rw [hstagedEq, hreplicaEq]
    refine ⟨hstaged', ds ++ more, fun d hd => ?_, ?_⟩
    · exact (List.mem_append.1 hd).elim (hds d) fun hd =>
        htells d (Packet.payload_of_introduce (hmore d hd))
    · rw [Replica.informed_append]
      exact (hsame.informed more).trans hsame'
  exact ⟨fun hp _ h happlies => hkept hp h happlies, fun _ _ _ _ _ hp _ _ h happlies => hkept hp h happlies⟩

/-! ## Packets of the source itself -/

/-- What packets of a source make, from the first key on, of what was staged and of a copy. The packet with
the next key is settled. One that comes again is settled again, unless it is a phase. If types are required,
others can tell of them. -/
inductive Produced (settings : ConflictSettings) (sent : List Packet) (resent : Prop)
    (told : TypeDescriptor → Prop) (first : Nat) (base : Staged × Replica) :
    Nat → Staged × Replica → Prop where
  | start {key : Nat} (behind : first = key + 1) : Produced settings sent resent told first base key base
  | next {key : Nat} {w : Staged × Replica} {p : Packet}
      (h : Produced settings sent resent told first base key w) (mem : p ∈ sent) (follows : p.key = key + 1) :
      Produced settings sent resent told first base (key + 1) (p.settle Replica.applier settings w)
  | again {key : Nat} {w : Staged × Replica} {p : Packet} (again : resent)
      (h : Produced settings sent resent told first base key w) (mem : p ∈ sent) (behind : p.key ≤ key)
      (plain : p.payload.isPhase = false) :
      Produced settings sent resent told first base key (p.settle Replica.applier settings w)
  | informed {key : Nat} {staged : Staged} {copy : Replica} {d : TypeDescriptor}
      (h : Produced settings sent resent told first base key (staged, copy)) (mem : told d)
      (required : copy.requireTypes = true) :
      Produced settings sent resent told first base key (staged, copy.informed [d])

/-- Packets that were sent, one for each key from the first on. -/
def EachOnce (sent : List Packet) (first key : Nat) (ps : List Packet) : Prop :=
  (∀ p ∈ ps, p ∈ sent) ∧ ps.map (·.key) = List.range' first (key + 1 - first)

namespace EachOnce

variable {sent sent' ps ps' : List Packet} {first middle key : Nat} {p : Packet}

theorem nil (h : first = key + 1) : EachOnce sent first key [] :=
  ⟨fun _ hp => (nomatch hp), by rw [h, Nat.sub_self]; rfl⟩

theorem mono (h : EachOnce sent first key ps) (hsent : ∀ p ∈ sent, p ∈ sent') :
    EachOnce sent' first key ps := ⟨fun p hp => hsent p (h.1 p hp), h.2⟩

theorem concat (h : EachOnce sent first key ps) (hle : first ≤ key + 1) (hp : p ∈ sent)
    (hkey : p.key = key + 1) : EachOnce sent first (key + 1) (ps ++ [p]) := by
  refine ⟨fun q hq => ?_, ?_⟩
  · rcases List.mem_append.1 hq with hq | hq
    · exact h.1 q hq
    · rw [List.mem_singleton.1 hq]
      exact hp
  · rw [List.map_append, h.2, range'_upTo_succ hle, List.map_singleton, hkey]

theorem append (h : EachOnce sent first middle ps) (h' : EachOnce sent (middle + 1) key ps')
    (hfirst : first ≤ middle + 1) (hmiddle : middle ≤ key) : EachOnce sent first key (ps ++ ps') := by
  refine ⟨fun p hp => (List.mem_append.1 hp).elim (h.1 p) (h'.1 p), ?_⟩
  have hmeet : first + (middle + 1 - first) = middle + 1 := by omega
  have hcount : (middle + 1 - first) + (key + 1 - (middle + 1)) = key + 1 - first := by omega
  rw [List.map_append, h.2, h'.2, ← hcount, ← List.range'_append_1, hmeet]

end EachOnce

/-- Settling never changes whether types are required. -/
theorem Replica.requireTypes_settled (settings : ConflictSettings) (p : Packet) (w : Staged × Replica) :
    (p.settle applier settings w).2.requireTypes = w.2.requireTypes := by
  have hapart : ∀ effect ∈ (p.payload.effects w.1).1, effect.Apart fun _ => False := fun effect _ => by
    cases effect with
    | entry op => exact not_false
    | addIndex | introduce => trivial
  obtain ⟨ds, -, hsame⟩ := informed_settleAll settings p.transient hapart w.2
  exact hsame.requires

namespace Produced

variable {settings : ConflictSettings} {sent sent' : List Packet} {resent resent' : Prop}
  {told told' : TypeDescriptor → Prop} {first key : Nat} {base w : Staged × Replica}
  {own : String → Prop}

theorem mono (h : Produced settings sent resent told first base key w) (hsent : ∀ p ∈ sent, p ∈ sent')
    (hresent : resent → resent') (htold : ∀ d, told d → told' d) :
    Produced settings sent' resent' told' first base key w := by
  induction h with
  | start behind => exact .start behind
  | next _ hmem hfollows ih => exact ih.next (hsent _ hmem) hfollows
  | again hagain _ hmem hbehind hplain ih => exact ih.again (hresent hagain) (hsent _ hmem) hbehind hplain
  | informed _ hmem hrequired ih => exact ih.informed (htold _ hmem) hrequired

theorem requireTypes (h : Produced settings sent resent told first base key w) :
    w.2.requireTypes = base.2.requireTypes := by
  induction h with
  | start => rfl
  | next _ _ _ ih | again _ _ _ _ _ ih => exact (Replica.requireTypes_settled ..).trans ih
  | informed _ _ _ ih => exact ih

theorem le (h : Produced settings sent resent told first base key w) : first ≤ key + 1 := by
  induction h with
  | start behind => exact Nat.le_of_eq behind
  | next _ _ _ ih => exact Nat.le_succ_of_le ih
  | again _ _ _ _ _ ih | informed _ _ _ ih => exact ih

/-- There is one packet for every key, and they account for what is staged. -/
theorem packets (h : Produced settings sent resent told first base key w) :
    ∃ ps, EachOnce sent first key ps ∧ w.1 = Packet.stagedBy ps base.1 := by
  induction h with
  | start behind => exact ⟨[], .nil behind, rfl⟩
  | next h hmem hfollows ih =>
    obtain ⟨ps, hps, hstaged⟩ := ih
    refine ⟨_, hps.concat h.le hmem hfollows, ?_⟩
    rw [Packet.settle, hstaged, Packet.stagedBy, Packet.stagedBy, List.foldl_append]
    rfl
  | again _ _ _ _ hplain ih =>
    obtain ⟨ps, hps, hstaged⟩ := ih
    exact ⟨ps, hps, (Payload.effects_staged hplain _).trans hstaged⟩
  | informed _ _ _ ih => exact ih

/-- If nothing came again and no types were told of, they account for all. -/
theorem exact (h : Produced settings sent resent told first base key w) (hresent : ¬ resent)
    (htold : base.2.requireTypes = true → ∀ d, ¬ told d) :
    ∃ ps, EachOnce sent first key ps ∧
      w = ps.foldl (fun w p => p.settle Replica.applier settings w) base := by
  induction h with
  | start behind => exact ⟨[], .nil behind, rfl⟩
  | next h hmem hfollows ih =>
    obtain ⟨ps, hps, hw⟩ := ih
    refine ⟨_, hps.concat h.le hmem hfollows, ?_⟩
    rw [hw, List.foldl_append]
    rfl
  | again hagain => exact absurd hagain hresent
  | informed h hmem hrequired => exact absurd hmem (htold (h.requireTypes ▸ hrequired) _)

theorem told_all {staged : Staged} {copy : Replica} (ds : List TypeDescriptor)
    (h : Produced settings sent resent told first base key (staged, copy)) (hds : ∀ d ∈ ds, told d)
    (hrequired : copy.requireTypes = true) :
    Produced settings sent resent told first base key (staged, copy.informed ds) := by
  induction ds generalizing copy with
  | nil => exact h
  | cons d ds ih =>
    exact ih (h.informed (hds d (List.mem_cons_self ..)) hrequired)
      (fun d' hd' => hds d' (List.mem_cons_of_mem _ hd')) hrequired

/-- Others work on the copy. -/
theorem told_on (h : Produced settings sent resent told first base key w) {replica replica' : Replica}
    (hsame : w.2.SameOn own replica) {ds : List TypeDescriptor} (hds : ∀ d ∈ ds, told d)
    (hworked : (replica.informed ds).SameOn own replica') :
    ∃ copy, Produced settings sent resent told first base key (w.1, copy) ∧ copy.SameOn own replica' := by
  have hinformed := (hsame.informed ds).trans hworked
  cases hrequired : w.2.requireTypes with
  | true => exact ⟨_, h.told_all ds hds hrequired, hinformed⟩
  | false => exact ⟨_, h, (Replica.SameOn.of_informed hrequired ds).symm.trans hinformed⟩

/-- The source works on the copy. -/
theorem upheld (settings : ConflictSettings) (sent : List Packet) (resent : Prop)
    (told : TypeDescriptor → Prop) (first : Nat) (base : Staged × Replica) (own : String → Prop) :
    Upheld settings (· ∈ sent) resent fun key w => ∃ copy,
      Produced settings sent resent told first base key (w.staged, copy) ∧ copy.SameOn own w.replica := by
  have hsettled : ∀ {p : Packet} {w w' : Work Replica} {copy : Replica},
      copy.SameOn own w.replica → Applies Replica.applier settings p w (.ok ()) w' →
      ∃ copy', p.settle Replica.applier settings (w.staged, copy) = (w'.staged, copy') ∧
        copy'.SameOn own w'.replica := by
    intro p w w' copy hsame happlies
    have hdone := happlies.settle
    rw [Packet.settle] at hdone
    obtain ⟨hstaged, hreplica⟩ := Prod.mk.inj hdone
    exact ⟨_, by rw [Packet.settle, hstaged], hreplica ▸ hsame.settleAll _⟩
  constructor
  · rintro key w w' p hp hkey ⟨copy, hproduced, hsame⟩ happlies
    obtain ⟨copy', hdone, hsame'⟩ := hsettled hsame happlies
    exact ⟨copy', hdone ▸ hproduced.next hp hkey, hsame'⟩
  · rintro hresent key w w' p hp hle hplain ⟨copy, hproduced, hsame⟩ happlies
    obtain ⟨copy', hdone, hsame'⟩ := hsettled hsame happlies
    exact ⟨copy', hdone ▸ hproduced.again hresent hp hle hplain, hsame'⟩

end Produced

end GroupReplication
