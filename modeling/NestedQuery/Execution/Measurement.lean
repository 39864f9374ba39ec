/- What is counted while plans are made and executed. -/

namespace NestedQuery

inductive Measurement where
  | executed (depth rows : Nat)
  | failed (depth : Nat)
  | skipped
  | degraded
  | cacheLookup (hit : Bool)
  /-- A plan for records of this format has run, successfully or not. -/
  | planTimed (format : String)
  deriving DecidableEq, Repr

namespace Measurement

/-- The names of the counters that a measurement touches, and what it adds to each. -/
def contributions : Measurement → List (String × Nat)
  | .executed depth rows => [
      ("weave_statements_total", 1),
      ("weave_rows_fetched_total", rows),
      (s!"weave_statement_duration_seconds\x7bdepth={depth}\x7d", 1)]
  | .failed depth => [(s!"weave_statements_failed_total\x7bdepth={depth}\x7d", 1)]
  | .skipped => [("weave_statements_skipped_total", 1)]
  | .degraded => [("weave_branches_degraded_total", 1)]
  | .cacheLookup hit =>
    [("weave_plan_cache_lookups_total\x7boutcome=" ++ (if hit then "hit" else "miss") ++ "\x7d", 1)]
  | .planTimed format => [(s!"weave_plan_duration_seconds\x7broot={format}\x7d", 1)]

def addTo (totals : List (String × Nat)) (name : String) (amount : Nat) : List (String × Nat) :=
  match totals with
  | [] => [(name, amount)]
  | (n, total) :: rest =>
    if n = name then (n, total + amount) :: rest else (n, total) :: addTo rest name amount

/-- The totals of all counters that were touched, even if by nothing. -/
def totals (log : List Measurement) : List (String × Nat) :=
  (log.flatMap contributions).foldl (fun totals c => addTo totals c.1 c.2) []

end Measurement
end NestedQuery
