/- Whether and when a failed attempt is followed by another one. -/
import NestedQuery.Config.Basic
import NestedQuery.Retry.Duration

namespace NestedQuery

/-- Attempts are counted from 0 with 32 bits. -/
def attemptLimit : Nat := 2 ^ 32

/-- What follows a failed attempt. -/
structure RetryPolicy where
  retries : Nat → Bool
  /-- The time before the next attempt, if it can be represented. -/
  delay : Nat → Option Duration

namespace Binary64

def one : Binary64 := ofNat 1

/-- Multiplies `r` by `x ^ n`, a factor for each binary digit of `n`, each product rounded. -/
def powerFrom (r x : Binary64) (n : Nat) : Binary64 :=
  if n ≤ 1 then if n = 1 then r.mul x else r
  else powerFrom (if n % 2 = 1 then r.mul x else r) (x.mul x) (n / 2)
termination_by n

/-- A power with a whole exponent; a negative one takes the reciprocal at the end. -/
def power (x : Binary64) (n : Int) : Binary64 :=
  let r := powerFrom one x n.natAbs
  if n < 0 then one.div r else r

end Binary64

/-- Delays that grow by a factor from attempt to attempt up to a limit. -/
structure Backoff where
  config : BackoffConfig
  /-- 0 acts as 1. -/
  maxAttempts : UInt32
  deriving DecidableEq, Repr

namespace Backoff

def attempts (b : Backoff) : Nat := max b.maxAttempts.toNat 1

/-- The last number of an attempt has no answer: there is no next one to compare with. -/
def retries? (b : Backoff) (attempt : Nat) : Option Bool :=
  if attempt + 1 < attemptLimit then some (attempt + 1 < b.attempts) else none

/-- The grown delay in whole milliseconds up to the limit, and some jitter. The attempt's number is
taken as an exponent of 32 bits with a sign. There is none if the grown delay is out of range. -/
def delay? (b : Backoff) (jitter : Nat) (attempt : Nat) : Option Duration :=
  let factor := b.config.multiplier.power (Int.bmod attempt attemptLimit)
  ((Duration.ofMilliseconds b.config.initialDelay.toNat).scale? factor).map fun grown =>
    .ofMilliseconds (min grown.milliseconds b.config.maxDelay.toNat + jitter)

/-- The policy, given the jitter of each attempt. -/
def policy (b : Backoff) (jitter : Nat → Nat) : RetryPolicy :=
  ⟨fun attempt => attempt + 1 < b.attempts, fun attempt => b.delay? (jitter attempt) attempt⟩

end Backoff
end NestedQuery
