/- How often an operation is attempted: up to its first success, as far as the limit of attempts goes. The
number of an attempt never leaves its 32 bits. -/
import Mathlib.Data.ENat.Lattice
import NestedQuery.Retry.Run

namespace NestedQuery

variable {ε : Type u} {α : Type v}

namespace Backoff

theorem attempts_pos (b : Backoff) : 0 < b.attempts := Nat.le_max_right _ _

theorem attempts_lt (b : Backoff) : b.attempts < attemptLimit := by
  have bound : b.maxAttempts.toNat < attemptLimit := b.maxAttempts.toNat_lt
  exact Nat.max_lt.mpr ⟨bound, by decide⟩

/-- Among the attempts that are made, there is a next number to compare with the limit. -/
theorem retries?_of_lt (b : Backoff) (jitter : Nat → Nat) {attempt : Nat}
    (made : attempt < b.attempts) :
    b.retries? attempt = some ((b.policy jitter).retries attempt) :=
  if_pos (Nat.lt_of_le_of_lt made b.attempts_lt)

end Backoff

namespace Retry

/-- An attempt that comes to an end. -/
def Attempt.ofResult : Except ε α → Attempt ε α
  | .ok value => .succeeded value
  | .error error => .failed error

/-- A run that ends with what its last attempt came to. -/
def Ending.ofResult : Except ε α → Ending ε α
  | .ok value => .succeeded value
  | .error error => .failed error

/-- The number of the first success, infinite if there is none. -/
noncomputable def firstSuccess (outcomes : Nat → Except ε α) : ℕ∞ :=
  ⨅ n, ⨅ _ : (outcomes n).isOk = true, (n : ℕ∞)

section Step

variable {policy : RetryPolicy} {operation : Nat → Attempt ε α} {attempt elapsed : Nat}

theorem runFrom_success {limit : Option Duration} {value : α}
    (success : operation attempt = .succeeded value) :
    runFrom policy limit operation attempt elapsed = ⟨.succeeded value, attempt + 1, []⟩ := by
  rw [runFrom.eq_def, success]
  rfl

theorem runFrom_giveUp {limit : Option Duration} {error : ε}
    (failure : operation attempt = .failed error) (last : policy.retries attempt = false) :
    runFrom policy limit operation attempt elapsed = ⟨.failed error, attempt + 1, []⟩ := by
  rw [runFrom.eq_def, failure]
  simp only [last, Bool.false_eq_true, not_false_eq_true, if_true]
  rfl

/-- A failure that is retried asks for one delay and goes on with the next attempt. -/
theorem runFrom_retry {error : ε} {delay : Duration} (failure : operation attempt = .failed error)
    (retried : policy.retries attempt = true) (counted : attempt + 1 < attemptLimit)
    (delayed : policy.delay attempt = some delay) :
    runFrom policy none operation attempt elapsed =
      let run := runFrom policy none operation (attempt + 1) (elapsed + delay.nanoseconds)
      { run with delays := attempt :: run.delays } := by
  rw [runFrom.eq_def, failure]
  simp only [retried, not_true_eq_false, if_false, dif_pos counted, delayed, Option.filter_none]

end Step

/-- After `count` failures that are retried, the run is the one from there on, and has asked for a delay
after each of them. -/
theorem runFrom_failures (policy : RetryPolicy) (operation : Nat → Attempt ε α)
    (count attempt elapsed : Nat)
    (failures : ∀ n, attempt ≤ n → n < attempt + count → ∃ error, operation n = .failed error)
    (retried : ∀ n, attempt ≤ n → n < attempt + count → policy.retries n = true)
    (delayed : ∀ n, attempt ≤ n → n < attempt + count → (policy.delay n).isSome)
    (counted : attempt + count < attemptLimit) :
    ∃ later, runFrom policy none operation attempt elapsed =
      let run := runFrom policy none operation (attempt + count) later
      { run with delays := List.range' attempt count ++ run.delays } := by
  -- On the failures that are left, from any attempt and with any time passed.
  induction count generalizing attempt elapsed with
  | zero => exact ⟨elapsed, rfl⟩
  | succ count ih =>
      have here : attempt < attempt + (count + 1) := by omega
      obtain ⟨error, failure⟩ := failures attempt le_rfl here
      obtain ⟨delay, given⟩ := Option.isSome_iff_exists.mp (delayed attempt le_rfl here)
      have step : runFrom policy none operation attempt elapsed = _ :=
        runFrom_retry failure (retried attempt le_rfl here) (by omega) given
      have shift : attempt + 1 + count = attempt + (count + 1) := by omega
      obtain ⟨later, rest⟩ := ih (attempt + 1) (elapsed + delay.nanoseconds)
        (fun n _ _ => failures n (by omega) (by omega)) (fun n _ _ => retried n (by omega) (by omega))
        (fun n _ _ => delayed n (by omega) (by omega)) (by omega)
      refine ⟨later, ?_⟩
      rw [step, rest, shift, List.range'_succ]
      rfl

section Outcomes

variable {outcomes : Nat → Except ε α} {last : Nat}

theorem le_firstSuccess (failed : ∀ n < last, (outcomes n).isOk = false) :
    (last : ℕ∞) ≤ firstSuccess outcomes := by
  refine le_iInf₂ fun n ok => ?_
  rw [Nat.cast_le]
  by_contra earlier
  rw [failed n (by omega)] at ok
  cases ok

theorem firstSuccess_eq (failed : ∀ n < last, (outcomes n).isOk = false)
    (success : (outcomes last).isOk = true) : firstSuccess outcomes = last :=
  le_antisymm (iInf₂_le last success) (le_firstSuccess failed)

/-- The number of the last attempt: the first success or the last one that is allowed. -/
theorem exists_last (outcomes : Nat → Except ε α) {allowed : Nat} (positive : 0 < allowed) :
    ∃ last < allowed, (∀ n < last, (outcomes n).isOk = false) ∧
      ((outcomes last).isOk = true ∨ last + 1 = allowed) := by
  classical
  by_cases reached : ∃ n < allowed, (outcomes n).isOk = true
  · have found := Nat.find_spec reached
    refine ⟨Nat.find reached, found.1, fun n earlier => ?_, .inl found.2⟩
    have before := Nat.find_min reached earlier
    rw [not_and, Bool.not_eq_true] at before
    exact before (Nat.lt_trans earlier found.1)
  · refine ⟨allowed - 1, by omega, fun n earlier => ?_, .inr (by omega)⟩
    rw [← Bool.not_eq_true]
    exact fun ok => reached ⟨n, by omega, ok⟩

/-- How many attempts there are up to the last one. -/
theorem attempts_eq_min {allowed : Nat} (failed : ∀ n < last, (outcomes n).isOk = false)
    (within : last < allowed) (ends : (outcomes last).isOk = true ∨ last + 1 = allowed) :
    ((last + 1 : ℕ) : ℕ∞) = min (firstSuccess outcomes + 1) allowed := by
  rcases ends with success | rfl
  · rw [firstSuccess_eq failed success, min_eq_left]
    · rfl
    · exact_mod_cast within
  · rw [min_eq_right]
    exact add_le_add_left (le_firstSuccess failed) 1

theorem exists_failed {outcome : Except ε α} (failed : outcome.isOk = false) :
    ∃ error, Attempt.ofResult outcome = .failed error := by
  cases outcome with
  | ok => cases failed
  | error error => exact ⟨error, rfl⟩

theorem succeeded_iff (outcome : Except ε α) :
    (∃ value, Ending.ofResult outcome = .succeeded value) ↔ outcome.isOk = true := by
  cases outcome <;> simp [Ending.ofResult, Except.isOk, Except.toBool]

/-- The last attempt succeeds exactly if the first success is within the limit. -/
theorem isOk_last_iff {allowed : Nat} (failed : ∀ n < last, (outcomes n).isOk = false)
    (within : last < allowed) (ends : (outcomes last).isOk = true ∨ last + 1 = allowed) :
    (outcomes last).isOk = true ↔ firstSuccess outcomes < allowed := by
  constructor
  · intro success
    rw [firstSuccess_eq failed success]
    exact_mod_cast within
  · intro reached
    rcases ends with success | rfl
    · exact success
    · by_contra failure
      refine absurd (le_firstSuccess fun n earlier => ?_) (not_le_of_gt reached)
      rcases Nat.lt_succ_iff_lt_or_eq.mp earlier with before | rfl
      · exact failed n before
      · exact Bool.not_eq_true _ ▸ failure

/-- The whole run, once it is known which attempt is the last. -/
theorem run_of_last (b : Backoff) (jitter : Nat → Nat)
    (returns : ∀ n, n + 1 < b.attempts → (b.delay? (jitter n) n).isSome)
    (failed : ∀ n < last, (outcomes n).isOk = false) (within : last < b.attempts)
    (ends : (outcomes last).isOk = true ∨ last + 1 = b.attempts) :
    run (b.policy jitter) none (fun n => .ofResult (outcomes n)) =
      ⟨.ofResult (outcomes last), last + 1, List.range last⟩ := by
  have limit := b.attempts_lt
  obtain ⟨later, steps⟩ := runFrom_failures (b.policy jitter)
    (fun n => .ofResult (outcomes n)) last 0 0
    (fun n _ earlier => exists_failed (failed n (by omega)))
    (fun n _ earlier => decide_eq_true (by omega)) (fun n _ earlier => returns n (by omega)) (by omega)
  have final : runFrom (b.policy jitter) none (fun n => .ofResult (outcomes n)) last later =
      ⟨.ofResult (outcomes last), last + 1, []⟩ := by
    cases outcome : outcomes last with
    | ok value => exact runFrom_success (congrArg Attempt.ofResult outcome)
    | error error =>
        refine runFrom_giveUp (congrArg Attempt.ofResult outcome) (decide_eq_false ?_)
        rcases ends with success | all
        · rw [outcome] at success
          cases success
        · omega
  simp only [run, steps, Nat.zero_add, final, List.range_eq_range', List.append_nil]

end Outcomes

/-- An operation is attempted up to its first success or the limit of attempts, whichever comes first, and the
run ends with what its last attempt came to. One delay is asked for between each two attempts, and all
numbers that are counted or compared fit into 32 bits. -/
theorem run_backoff (b : Backoff) (jitter : Nat → Nat) (outcomes : Nat → Except ε α)
    (returns : ∀ n, n + 1 < b.attempts → (b.delay? (jitter n) n).isSome) :
    let made := run (b.policy jitter) none fun n => .ofResult (outcomes n)
    (made.attempts : ℕ∞) = min (firstSuccess outcomes + 1) (max b.maxAttempts.toNat 1 : ℕ) ∧
      made.ending = .ofResult (outcomes (made.attempts - 1)) ∧
      ((∃ value, made.ending = .succeeded value) ↔
        firstSuccess outcomes < (max b.maxAttempts.toNat 1 : ℕ)) ∧
      made.delays = List.range (made.attempts - 1) ∧
      made.attempts < attemptLimit ∧
      ∀ n < made.attempts, b.retries? n = some ((b.policy jitter).retries n) := by
  obtain ⟨last, within, failed, ends⟩ := exists_last outcomes b.attempts_pos
  rw [run_of_last b jitter returns failed within ends]
  exact ⟨attempts_eq_min failed within ends, rfl,
    (succeeded_iff _).trans (isOk_last_iff failed within ends), rfl,
    Nat.lt_of_le_of_lt within b.attempts_lt,
    fun n made => b.retries?_of_lt jitter (Nat.lt_of_lt_of_le made within)⟩

/-- Two failures, then a success with the last of three attempts. -/
theorem run_backoff_connected :
    let b : Backoff := ⟨⟨10, 1000, .ofNat 2, 0⟩, 3⟩
    let outcomes : Nat → Except String String := fun n =>
      if n < 2 then .error "connection refused" else .ok "connected"
    let made := run (b.policy fun _ => 0) none fun n => .ofResult (outcomes n)
    (∀ n, n + 1 < b.attempts → (b.delay? 0 n).isSome) ∧ firstSuccess outcomes = 2 ∧
      made.attempts = 3 ∧ made.ending = .succeeded "connected" ∧ made.delays = [0, 1] := by
  intro b outcomes made
  have returns : ∀ n, n + 1 < b.attempts → (b.delay? 0 n).isSome := by
    intro n within
    have cases : n = 0 ∨ n = 1 := by
      have : b.attempts = 3 := rfl
      omega
    rcases cases with rfl | rfl <;> decide +kernel
  have first : firstSuccess outcomes = 2 := by
    refine firstSuccess_eq (fun n earlier => ?_) rfl
    change Except.isOk (if n < 2 then _ else _) = false
    rw [if_pos earlier]
    rfl
  obtain ⟨attempts, ending, -, delays, -⟩ := run_backoff b (fun _ => 0) outcomes returns
  have three : made.attempts = 3 := by
    have least : min (2 + 1 : ℕ∞) ((max b.maxAttempts.toNat 1 : ℕ) : ℕ∞) = (3 : ℕ) := rfl
    rw [first, least] at attempts
    exact Nat.cast_injective attempts
  refine ⟨returns, first, three, ?_, ?_⟩
  · rw [ending, three]
    rfl
  · rw [delays, three]
    rfl

end Retry
end NestedQuery
