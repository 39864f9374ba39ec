/- Attempts at an operation until one succeeds or the policy gives up. -/
import NestedQuery.Retry.Backoff

namespace NestedQuery.Retry

/-- What an attempt comes to; a pending one never ends. -/
inductive Attempt (ε : Type u) (α : Type v) where
  | succeeded (value : α)
  | failed (error : ε)
  | pending
  deriving Repr

inductive Ending (ε : Type u) (α : Type v) where
  | succeeded (value : α)
  /-- The last attempt's error, which the policy does not retry. -/
  | failed (error : ε)
  | timedOut (limit : Duration)
  /-- Without a limit a pending attempt is waited for forever. -/
  | unending
  /-- The delay before the next attempt, or the next attempt's number, is out of range. -/
  | outOfRange
  deriving Repr

/-- How the attempts ended, how many there were, and before which the policy was asked for a delay. -/
structure Run (ε : Type u) (α : Type v) where
  ending : Ending ε α
  attempts : Nat
  delays : List Nat
  deriving Repr

def give {ε : Type u} {α : Type v} (attempt : Nat) (ending : Ending ε α) : Run ε α :=
  ⟨ending, attempt + 1, []⟩

/-- Makes attempts from the given one on. Time passes between the attempts only. -/
def runFrom {ε : Type u} {α : Type v} (policy : RetryPolicy) (limit : Option Duration)
    (operation : Nat → Attempt ε α) (attempt elapsed : Nat) : Run ε α :=
  match operation attempt with
  | .succeeded value => give attempt (.succeeded value)
  | .pending =>
    match limit with
    | some limit => give attempt (.timedOut limit)
    | none => give attempt .unending
  | .failed error =>
    if ¬ policy.retries attempt then give attempt (.failed error)
    else if _within : attempt + 1 < attemptLimit then
      match policy.delay attempt with
      | none => give attempt .outOfRange
      | some delay =>
        let elapsed := elapsed + delay.nanoseconds
        match limit.filter (·.nanoseconds < elapsed) with
        | some limit => { give attempt (.timedOut limit) with delays := [attempt] }
        | none =>
          let run := runFrom policy limit operation (attempt + 1) elapsed
          { run with delays := attempt :: run.delays }
    else give attempt .outOfRange
termination_by attemptLimit - attempt

/-- Makes attempts until one succeeds, the policy gives up, or the time limit is over. -/
def run {ε : Type u} {α : Type v} (policy : RetryPolicy) (limit : Option Duration)
    (operation : Nat → Attempt ε α) : Run ε α :=
  runFrom policy limit operation 0 0

/-- How an unsuccessful run is told. -/
def Ending.message : Ending String α → String
  | .succeeded _ => ""
  | .failed error => error
  | .timedOut limit => "gave up after " ++ limit.text
  | .unending => "still waiting"
  | .outOfRange => "no next attempt"

end NestedQuery.Retry
