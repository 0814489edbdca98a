/-
What becomes of a single effect on a target's copy, and the journal of it.
-/
import GroupReplication.Replica.Applier

namespace GroupReplication

inductive Outcome where
  | applied
  | overwritten (conflict : Conflict)
  | ignored (severity : Severity) (conflict : Conflict)
  | reported (severity : Severity) (conflict : Conflict)
  | failed (text : String)
  | overwriteFailed (conflict : Conflict) (text : String)
  deriving Repr, DecidableEq

namespace Outcome

/-- What went wrong, if the effect is still open. -/
def failure? : Outcome → Option String
  | .failed text | .overwriteFailed _ text => some text
  | _ => none

/-- The effect was carried out or set aside on purpose. -/
def isSettled (o : Outcome) : Bool := o.failure?.isNone

end Outcome

/-- Applies an operation whatever is there; a change to the types is never forced. -/
def Effect.force {ρ : Type} (A : Applier ρ) (effect : Effect) (r : ρ) :
    Except ApplyError Unit × ρ :=
  match effect with
  | .entry op => A.overwrite op r
  | _ => (.ok (), r)

/-- Tries an effect, and lets the settings decide about a conflict. -/
def Effect.settle {ρ : Type} (A : Applier ρ) (settings : ConflictSettings) (transient : Bool)
    (effect : Effect) (r : ρ) : Outcome × ρ :=
  match A.apply effect transient r with
  | (.ok (), r) => (.applied, r)
  | (.error (.fatal text), r) => (.failed text, r)
  | (.error (.conflict conflict), r) =>
    match settings.decide effect.kind conflict transient with
    | .ignore severity => (.ignored severity conflict, r)
    | .report severity => (.reported severity conflict, r)
    | .apply =>
      match effect.force A r with
      | (.ok (), r) => (.overwritten conflict, r)
      | (.error e, r) => (.overwriteFailed conflict e.message, r)

/-- One effect of a packet that came from a source into a group, and what became of it. -/
structure JournalEntry where
  group : String
  source : String
  /-- The key of the packet. -/
  key : Nat
  effect : Effect
  outcome : Outcome
  deriving Repr, DecidableEq

namespace JournalEntry

/-- What is logged, which is nothing unless there was a conflict. -/
def logLine? (e : JournalEntry) : Option LogLine :=
  let line (r : Resolution) (conflict : Conflict) : Option LogLine :=
    some (r.logLine e.group e.key e.effect.kind conflict)
  match e.outcome with
  | .applied | .failed _ => none
  | .overwritten c | .overwriteFailed c _ => line .apply c
  | .ignored severity c => line (.ignore severity) c
  | .reported severity c => line (.report severity) c

end JournalEntry

end GroupReplication
