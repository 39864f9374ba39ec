/- Procedures on a state in place. A procedure that is refused may have changed its state before, unless it is
proved that it has not. -/
import NestedQuery.Proofs.Result

namespace NestedQuery

/-- A procedure on a state. What it changes stays changed, even if it is refused later on. -/
abbrev Procedure (σ α : Type) := EStateM QueryError σ α

namespace Procedure

variable {σ α β : Type}

/-- What may be refused, but does not change the state. -/
def attempt (result : Result β) : Procedure σ β := fun s =>
  match result with
  | .ok value => .ok value s
  | .error error => .error error s

def test (check : σ → Result Unit) : Procedure σ Unit := fun s => attempt (check s) s

/-- The state that is left behind, whether the procedure is refused or not. -/
def leave (procedure : Procedure σ α) (s : σ) : σ :=
  match procedure.run s with
  | .ok _ next => next
  | .error _ next => next

/-- How a procedure ends that changes nothing before it can no longer be refused. -/
def ended (s : σ) : Result σ → EStateM.Result QueryError σ Unit
  | .ok next => .ok () next
  | .error error => .error error s

variable {s next : σ} {r : Result σ}

theorem ended_ok (run : ended s r = .ok () next) : r = .ok next := by
  cases r with
  | error error => cases run
  | ok reached =>
      cases run
      rfl

theorem ended_error {error : QueryError} (run : ended s r = .error error next) : next = s := by
  cases r with
  | error _ =>
      cases run
      rfl
  | ok reached => cases run

theorem leave_eq {procedure : Procedure σ Unit} (run : procedure.run s = ended s r) :
    procedure.leave s = r.toOption.getD s := by
  rw [leave, run]
  cases r <;> rfl

theorem attempt_bind {result : Result β} {rest : β → Procedure σ Unit} {result' : β → Result σ}
    (later : ∀ value, result = .ok value → (rest value).run s = ended s (result' value)) :
    (attempt result >>= rest).run s = ended s (result >>= result') := by
  change EStateM.bind (attempt result) rest s = _
  cases tried : result with
  | error error => rfl
  | ok value => exact later value tried

theorem test_bind {check : σ → Result Unit} {rest : Unit → Procedure σ Unit}
    {result : Unit → Result σ} (later : check s = .ok () → (rest ()).run s = ended s (result ())) :
    (test check >>= rest).run s = ended s (check s >>= result) :=
  attempt_bind fun _ checked => later checked

theorem forM_test_bind {xs : List α} {check : α → σ → Result Unit} {rest : Unit → Procedure σ Unit}
    {result : Unit → Result σ}
    (later : (∀ x ∈ xs, check x s = .ok ()) → (rest ()).run s = ended s (result ())) :
    (xs.forM (fun x => test (check x)) >>= rest).run s = ended s (xs.forM (check · s) >>= result) := by
  induction xs with
  | nil => exact later nofun
  | cons x xs ih =>
      change ((test (check x) >>= fun _ => xs.forM fun x => test (check x)) >>= rest).run s =
        ended s ((check x s >>= fun _ => xs.forM (check · s)) >>= result)
      rw [bind_assoc, bind_assoc]
      refine test_bind fun first => ih fun others => later ?_
      exact List.forall_mem_cons.mpr ⟨first, others⟩

end Procedure
end NestedQuery
