/- Counters by name: the total of a counter over all its labels is the sum of what the measurements add
to it. -/
import Mathlib.Algebra.Ring.Nat
import NestedQuery.Execution.Measurement

namespace NestedQuery.Measurement

/-- The name of a counter without its label. -/
def family (counter : String) : String := String.ofList (counter.toList.takeWhile (· ≠ '\x7b'))

/-- What counters of one name come to, whatever their labels. -/
def counted (name : String) (counters : List (String × Nat)) : Nat :=
  ((counters.filter fun c => family c.1 = name).map (·.2)).sum

def total (name : String) (log : List Measurement) : Nat := counted name (totals log)

def amount (name : String) (m : Measurement) : Nat := counted name m.contributions

section Sums

variable {name counter : String} {value : Nat}

theorem counted_cons (rest : List (String × Nat)) : counted name ((counter, value) :: rest) =
    (if family counter = name then value else 0) + counted name rest := by
  by_cases own : family counter = name <;> simp [counted, own]

theorem counted_append (counters more : List (String × Nat)) :
    counted name (counters ++ more) = counted name counters + counted name more := by
  simp only [counted, List.filter_append, List.map_append, List.sum_append]

theorem counted_addTo (counters : List (String × Nat)) : counted name (addTo counters counter value) =
    counted name counters + if family counter = name then value else 0 := by
  induction counters with
  | nil => exact (counted_cons []).trans (Nat.add_comm _ _)
  | cons first rest ih =>
      obtain ⟨n, before⟩ := first
      rw [addTo]
      by_cases here : n = counter
      · rw [if_pos here, here, counted_cons, counted_cons]
        split <;> omega
      · rw [if_neg here, counted_cons, counted_cons, ih]
        omega

theorem counted_totals (log : List Measurement) : counted name (totals log) =
    counted name (log.flatMap contributions) := by
  have folded : ∀ added counters : List (String × Nat),
      counted name (added.foldl (fun totals c => addTo totals c.1 c.2) counters) =
        counted name counters + counted name added := by
    intro added
    induction added with
    | nil => exact fun _ => rfl
    | cons c rest ih =>
        intro counters
        rw [List.foldl_cons, ih, counted_addTo, counted_cons]
        omega
  rw [totals, folded]
  exact Nat.zero_add _

theorem total_eq (log : List Measurement) : total name log = (log.map (amount name)).sum := by
  rw [total, counted_totals]
  induction log with
  | nil => rfl
  | cons m rest ih =>
      rw [List.flatMap_cons, counted_append, ih, List.map_cons, List.sum_cons]
      rfl

end Sums

theorem family_append {name label : String} (labelled : '\x7b' ∈ name.toList) :
    family (name ++ label) = family name := by
  have kept : ∀ chars more : List Char, '\x7b' ∈ chars →
      (chars ++ more).takeWhile (· ≠ '\x7b') = chars.takeWhile (· ≠ '\x7b') := by
    intro chars more
    induction chars with
    | nil => exact nofun
    | cons c rest ih =>
        intro member
        by_cases here : c = '\x7b'
        · simp [here]
        · have later : '\x7b' ∈ rest := (List.mem_cons.mp member).resolve_left (Ne.symm here)
          simpa [here] using ih later
  rw [family, family, String.toList_append, kept _ _ labelled]

theorem family_duration (depth : Nat) :
    family s!"weave_statement_duration_seconds\x7bdepth={depth}\x7d" =
      "weave_statement_duration_seconds" := by
  have cut : family ("weave_statement_duration_seconds\x7bdepth=" ++ (toString depth ++ "\x7d")) =
    family "weave_statement_duration_seconds\x7bdepth=" := family_append (by decide)
  exact cut.trans (by decide)

theorem family_failed (depth : Nat) :
    family s!"weave_statements_failed_total\x7bdepth={depth}\x7d" =
      "weave_statements_failed_total" := by
  have cut : family ("weave_statements_failed_total\x7bdepth=" ++ (toString depth ++ "\x7d")) =
    family "weave_statements_failed_total\x7bdepth=" := family_append (by decide)
  exact cut.trans (by decide)

section Amounts

variable (name : String)

theorem amount_executed (depth rows : Nat) : amount name (.executed depth rows) =
    (if "weave_statements_total" = name then 1 else 0) +
      ((if "weave_rows_fetched_total" = name then rows else 0) +
        if "weave_statement_duration_seconds" = name then 1 else 0) := by
  have plain : family "weave_statements_total" = "weave_statements_total" ∧
      family "weave_rows_fetched_total" = "weave_rows_fetched_total" := by decide
  rw [amount, contributions, counted_cons, counted_cons, counted_cons, family_duration, plain.1,
    plain.2]
  rfl

theorem amount_failed (depth : Nat) : amount name (.failed depth) =
    if "weave_statements_failed_total" = name then 1 else 0 := by
  rw [amount, contributions, counted_cons, family_failed]
  rfl

theorem amount_skipped : amount name .skipped =
    if "weave_statements_skipped_total" = name then 1 else 0 := by
  have plain : family "weave_statements_skipped_total" = "weave_statements_skipped_total" := by decide
  rw [amount, contributions, counted_cons, plain]
  rfl

theorem amount_degraded : amount name .degraded =
    if "weave_branches_degraded_total" = name then 1 else 0 := by
  have plain : family "weave_branches_degraded_total" = "weave_branches_degraded_total" := by decide
  rw [amount, contributions, counted_cons, plain]
  rfl

end Amounts

end NestedQuery.Measurement
