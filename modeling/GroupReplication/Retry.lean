/-
Trying again after failures that may pass, with pauses that double up to a limit. Times are in
milliseconds.
-/
import GroupReplication.Action
import GroupReplication.Rounding
import GroupReplication.Settings

namespace GroupReplication

structure RetrySettings where
  maxAttempts : Nat
  initialDelay : Nat
  maxDelay : Nat
  deriving Repr, DecidableEq

namespace RetrySettings

/-- How a delivery worker reconnects. -/
def ofDelivery (s : DeliverySettings) : RetrySettings :=
  ⟨s.reconnectAttempts, s.reconnectInitialDelay, s.reconnectMaxDelay⟩

/-- The delay after a failed attempt, the first of which has number 1. Past attempt 1024 it is
the limit in any case. -/
def delay (s : RetrySettings) (attempt : Nat) : Nat :=
  if attempt ≤ 1024 then min (s.initialDelay * 2 ^ (attempt - 1)) s.maxDelay else s.maxDelay

/-- Thirty years of 365 days. -/
def longestPause : Nat := 30 * 365 * 24 * 60 * 60 * 1000

/-- The pause that a delay leads to. The delay is reckoned in nanoseconds, to 53 significant
binary digits, and what is left over of a millisecond counts as a whole one. -/
def pause (s : RetrySettings) (attempt : Nat) : Nat :=
  let nanoseconds := Rounding.significant 53 (s.delay attempt * 1000000)
  min ((nanoseconds + 999999) / 1000000) longestPause

end RetrySettings

structure RetryReport (α : Type) where
  result : Except Error α
  attempts : Nat
  failures : List (Nat × Error)
  /-- The pauses before the second and each further attempt. -/
  pauses : List Nat

namespace RetryReport

/-- The report of a run in which `e` came first. -/
def after {α : Type} (attempt : Nat) (e : Error) (pause : Nat) (r : RetryReport α) :
    RetryReport α :=
  { r with failures := (attempt, e) :: r.failures, pauses := pause :: r.pauses }

end RetryReport

namespace Retry

variable {σ α : Type}

/-- Makes attempt number `attempt`, and up to `more` further ones as long as an attempt fails
in a way that may pass. -/
def runFrom (s : RetrySettings) (act : Nat → Action σ α) :
    (more attempt : Nat) → σ → RetryReport α × σ
  | more, attempt, state =>
    match (act attempt).perform state with
    | (.ok a, state) => (⟨.ok a, attempt, [], []⟩, state)
    | (.error e, state) =>
      match more, e.isRetryable with
      | more + 1, true =>
        let (report, state) := runFrom s act more (attempt + 1) state
        (report.after attempt e (s.pause attempt), state)
      | _, _ => (⟨.error e, attempt, [(attempt, e)], []⟩, state)

/-- At least one attempt is made. -/
def run (s : RetrySettings) (act : Nat → Action σ α) (state : σ) : RetryReport α × σ :=
  runFrom s act (s.maxAttempts - 1) 1 state

end Retry

end GroupReplication
