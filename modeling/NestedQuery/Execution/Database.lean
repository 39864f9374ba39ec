/- The database as seen by the executor, and one that answers by rules. -/
import NestedQuery.Error
import NestedQuery.Sql.Fragment

namespace NestedQuery

/-- A database with states of type `σ`. Each call sends a statement and may change the state. -/
structure Database (σ : Type u) where
  fetch : Sql.Statement → σ → Result (List Row) × σ
  fetchOne : Sql.Statement → σ → Result (Option Row) × σ

namespace Scripted

inductive Answer where
  | rows (rows : List Row)
  | failure (error : QueryError)
  deriving Repr

/-- Answers statements whose text contains `pattern`, at most `times` of them if given. -/
structure Rule where
  pattern : String
  answer : Answer
  times : Option Nat
  deriving Repr

inductive CallKind where
  | fetch
  | fetchOne
  deriving DecidableEq, Repr

structure Call where
  kind : CallKind
  text : String
  params : List Value
  deriving Repr

/-- The rules that are left, and the calls so far. -/
structure State where
  rules : List Rule
  calls : List Call
  deriving Repr

def occursIn (pattern : List Char) : List Char → Bool
  | [] => pattern.isEmpty
  | c :: rest => pattern.isPrefixOf (c :: rest) || occursIn pattern rest

def Rule.applies (r : Rule) (text : String) : Bool :=
  r.times != some 0 && occursIn r.pattern.toList text.toList

/-- The answer of the first rule that applies, and the rules that are left; without a rule there are
no rows. -/
def respond (text : String) : List Rule → Answer × List Rule
  | [] => (.rows [], [])
  | r :: rest =>
    if r.applies text then (r.answer, { r with times := r.times.map (· - 1) } :: rest)
    else
      let (answer, rest) := respond text rest
      (answer, r :: rest)

def call (kind : CallKind) (s : Sql.Statement) (state : State) : Result (List Row) × State :=
  let text := s.text
  let (answer, rules) := respond text state.rules
  let result := match answer with
    | .rows rows => .ok rows
    | .failure error => .error error
  (result, ⟨rules, state.calls ++ [⟨kind, text, s.params⟩]⟩)

def database : Database State where
  fetch s state := call .fetch s state
  fetchOne s state :=
    let (result, state) := call .fetchOne s state
    (result.map (·.head?), state)

end Scripted
end NestedQuery
