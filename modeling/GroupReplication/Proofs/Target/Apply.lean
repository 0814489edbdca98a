/-
What the packets that a target applies do to its copy, to its journal and to what is staged. The
effects of a packet are settled in their order up to the first that fails, and each is journaled
under the packet's key.
-/
import GroupReplication.Proofs.Action
import GroupReplication.Target.Channel

namespace GroupReplication

open GroupReplication.Action

/-- A phase of a transaction, which changes what is staged. -/
def Payload.isPhase : Payload → Bool
  | .transaction .. => true
  | _ => false

theorem Payload.effects_staged {p : Payload} (h : p.isPhase = false) (staged : Staged) :
    (p.effects staged).2 = staged := by
  cases p with
  | transaction phase txn => cases h
  | _ => rfl

/-- The part of a receiver that packets work on. -/
structure Work (ρ : Type) where
  staged : Staged
  replica : ρ
  journal : List JournalEntry

namespace Receiver

variable {ρ : Type}

def work (r : Receiver ρ) : Work ρ := ⟨r.channel.staged, r.replica, r.journal⟩

/-- The receiver with another state of its work, and other counts. -/
def withWork (r : Receiver ρ) (w : Work ρ) (stats : TargetStats) : Receiver ρ :=
  ⟨{ r.channel with staged := w.staged, stats }, w.replica, w.journal⟩

end Receiver

/-- The copy after effects that were all settled. -/
def Effect.settleAll {ρ : Type} (A : Applier ρ) (settings : ConflictSettings) (transient : Bool)
    (effects : List Effect) (r : ρ) : ρ :=
  effects.foldl (fun r effect => (effect.settle A settings transient r).2) r

/-- What became of effects that the packet with this key asked for, in journal entries. -/
inductive Carried {ρ : Type} (A : Applier ρ) (settings : ConflictSettings) (key : Nat)
    (transient : Bool) (effects : List Effect) (r : ρ) :
    Except Error Unit → ρ → List JournalEntry → Prop where
  | settled {entries : List JournalEntry} (keys : ∀ e ∈ entries, e.key = key)
      (inOrder : entries.map (·.effect) = effects)
      (all : ∀ e ∈ entries, e.outcome.isSettled = true) :
      Carried A settings key transient effects r (.ok ())
        (Effect.settleAll A settings transient effects r) entries
  | broken {entries : List JournalEntry} {error : Error} {r' : ρ}
      (keys : ∀ e ∈ entries, e.key = key)
      (fewer : (entries.filter (·.outcome.isSettled)).length < effects.length)
      (failed : ∃ e ∈ entries, e.outcome.isSettled = false)
      (cause : ∃ (effect : Effect) (before : ρ), (effect.settle A settings transient before).1.isSettled = false) :
      Carried A settings key transient effects r (.error error) r' entries

namespace Receiver

variable {ρ : Type} {A : Applier ρ}

theorem carryOutAll_spec (A : Applier ρ) (key : Nat) (transient : Bool) (effects : List Effect)
    (r : Receiver ρ) : ∃ result stats replica entries,
      (carryOutAll A key transient effects).perform r
        = (result, r.withWork ⟨r.channel.staged, replica, r.journal ++ entries⟩ stats) ∧
      Carried A r.channel.settings key transient effects r.replica result replica entries := by
  induction effects generalizing r with
  | nil =>
    refine ⟨.ok (), r.channel.stats, r.replica, [], ?_, ?_⟩
    · rw [List.append_nil]
      rfl
    · exact .settled (fun _ h => nomatch h) rfl fun _ h => nomatch h
  | cons effect rest ih =>
    rw [carryOutAll]
    -- the first effect, whatever becomes of it
    obtain ⟨⟨outcome, replica⟩, hsettle⟩ :
      ∃ out, effect.settle A r.channel.settings transient r.replica = out := ⟨_, rfl⟩
    let entry : JournalEntry := ⟨r.channel.group, r.channel.source, key, effect, outcome⟩
    let r' : Receiver ρ := r.withWork ⟨r.channel.staged, replica, r.journal ++ [entry]⟩
      (r.channel.stats.count outcome)
    cases hfail : outcome.failure? with
    | some text =>
      have hsettled : outcome.isSettled = false := by simp [Outcome.isSettled, hfail]
      refine ⟨.error (.apply text), r.channel.stats.count outcome, replica, [entry], ?_, ?_⟩
      · refine perform_bind_error ?_
        simp only [carryOut, perform_get_bind, hsettle, perform_set_bind, hfail]
        rfl
      · refine .broken (fun e he => ?_) ?_ ⟨entry, List.mem_singleton_self _, hsettled⟩
          ⟨effect, r.replica, by rw [hsettle]; exact hsettled⟩
        · rw [List.mem_singleton.1 he]
        · simp [entry, hsettled]
    | none =>
      have hsettled : outcome.isSettled = true := by simp [Outcome.isSettled, hfail]
      have hfirst : (carryOut A key transient effect).perform r = (.ok (), r') := by
        simp only [carryOut, perform_get_bind, hsettle, perform_set_bind, hfail]
        rfl
      obtain ⟨result, stats, replica', entries, hrest, hcarried⟩ := ih r'
      refine ⟨result, stats, replica', entry :: entries, ?_, ?_⟩
      · rw [perform_bind_ok hfirst, hrest]
        simp [r', withWork]
      · have hreplica : r'.replica = (effect.settle A r.channel.settings transient r.replica).2 := by
          rw [hsettle]
          rfl
        cases hcarried with
        | settled hkeys horder hall =>
          rw [hreplica]
          refine .settled (fun e he => ?_) ?_ fun e he => ?_
          · rcases List.mem_cons.1 he with rfl | he
            · rfl
            · exact hkeys e he
          · rw [List.map_cons, horder]
          · rcases List.mem_cons.1 he with rfl | he
            · exact hsettled
            · exact hall e he
        | broken hkeys hfewer hfailed hcause =>
          refine .broken (fun e he => ?_) ?_ ?_ hcause
          · rcases List.mem_cons.1 he with rfl | he
            · rfl
            · exact hkeys e he
          · rw [List.filter_cons_of_pos (by exact hsettled), List.length_cons, List.length_cons]
            omega
          · obtain ⟨e, he, hopen⟩ := hfailed
            exact ⟨e, List.mem_cons_of_mem _ he, hopen⟩

end Receiver

/-- What one packet makes of the work: its effects are carried out, and what it stages changes even
when one of them fails. -/
inductive Applies {ρ : Type} (A : Applier ρ) (settings : ConflictSettings) (p : Packet) (w : Work ρ) :
    Except Error Unit → Work ρ → Prop where
  | intro {result : Except Error Unit} {replica : ρ} {entries : List JournalEntry}
      (carried : Carried A settings p.key p.transient (p.payload.effects w.staged).1 w.replica result
        replica entries) :
      Applies A settings p w result ⟨(p.payload.effects w.staged).2, replica, w.journal ++ entries⟩

theorem Receiver.applyPacket_spec {ρ : Type} (A : Applier ρ) (p : Packet) (r : Receiver ρ) :
    ∃ result stats w, (applyPacket A p).perform r = (result, r.withWork w stats) ∧
      Applies A r.channel.settings p r.work result w := by
  obtain ⟨⟨effects, staged⟩, heffects⟩ : ∃ out, p.payload.effects r.channel.staged = out := ⟨_, rfl⟩
  obtain ⟨result, stats, replica, entries, hall, hcarried⟩ := carryOutAll_spec A p.key p.transient
    effects { r with channel := { r.channel with staged } }
  refine ⟨result, stats, ⟨staged, replica, r.journal ++ entries⟩, ?_, ?_⟩
  · simp only [applyPacket, perform_get_bind, heffects, onChannel, perform_modify_bind]
    rw [hall]
    rfl
  · have happlies : Carried A r.channel.settings p.key p.transient
        (p.payload.effects r.work.staged).1 r.work.replica result replica entries →
        Applies A r.channel.settings p r.work result
          ⟨(p.payload.effects r.work.staged).2, replica, r.work.journal ++ entries⟩ := .intro
    rw [work, heffects] at happlies
    exact happlies hcarried

end GroupReplication
