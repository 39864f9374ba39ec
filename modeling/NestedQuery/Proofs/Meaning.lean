/- What filters mean: the condition that the text of a filter is read as is true, false or unknown of the
rows of which the filter is. -/
import NestedQuery.Proofs.Reading
import NestedQuery.Proofs.Rendering

namespace NestedQuery.Sql

/-- What a database decides about two values that are not null, the second of which may be cast. -/
structure Judge where
  compare : Comparison → Value → Value × Option String → Bool
  like : Value → Value × Option String → Bool

/-- A test of a value is unknown where one of the two is null. -/
def tested (decide : Value → Value × Option String → Bool) (v : Value) (o : Value × Option String) :
    Option Bool :=
  if v.isNull || o.1.isNull then none else some (decide v o)

namespace Connective

/-- What two conditions are together. `none` is unknown. -/
def combine : Connective → Option Bool → Option Bool → Option Bool
  | .and, some false, _ => some false
  | .and, _, some false => some false
  | .and, some true, some true => some true
  | .or, some true, _ => some true
  | .or, _, some true => some true
  | .or, some false, some false => some false
  | _, _, _ => none

/-- What no condition is. -/
def neutral : Connective → Bool
  | .and => true
  | .or => false

/-- All are false if one is, and one of any number is true if some one is. Else what is unknown leaves
this unknown. -/
def overall (c : Connective) (truths : List (Option Bool)) : Option Bool :=
  if some (!c.neutral) ∈ truths then some (!c.neutral)
  else if none ∈ truths then none
  else some c.neutral

theorem overall_singleton (c : Connective) (t : Option Bool) : c.overall [t] = t := by
  cases c with
  | and => rcases t with _ | _ | _ <;> rfl
  | or => rcases t with _ | _ | _ <;> rfl

theorem overall_neutral (c : Connective) (truths : List (Option Bool)) :
    c.overall (some c.neutral :: truths) = c.overall truths := by
  have other : ¬some (!c.neutral) = some c.neutral := by
    cases c <;> decide
  simp only [overall, List.mem_cons, other, false_or, reduceCtorEq]

theorem overall_combine (c : Connective) (t u : Option Bool) (truths : List (Option Bool)) :
    c.overall (c.combine t u :: truths) = c.overall (t :: u :: truths) := by
  cases c with
  | and => rcases t with _ | _ | _ <;> rcases u with _ | _ | _ <;> simp [combine, overall, neutral]
  | or => rcases t with _ | _ | _ <;> rcases u with _ | _ | _ <;> simp [combine, overall, neutral]

/-- Conditions that are connected one after another are what they are overall. -/
theorem foldl_combine (c : Connective) (t : Option Bool) (truths : List (Option Bool)) :
    truths.foldl c.combine t = c.overall (t :: truths) := by
  induction truths generalizing t with
  | nil => exact (overall_singleton c t).symm
  | cons u rest ih => rw [List.foldl_cons, ih, overall_combine]

end Connective

namespace Expression

mutual

/-- What a condition is of a row, given by the values of its columns. -/
def holds (judge : Judge) (row : Column → Value) : Expression (Value × Option String) → Option Bool
  | .constant b => some b
  | .nullTest column isNull => some ((row column).isNull == isNull)
  | .compare column comparison o => tested (judge.compare comparison) (row column) o
  | .isIn column operands =>
    (operands.map (tested (judge.compare .eq) (row column))).foldl Connective.or.combine (some false)
  | .like column o => tested judge.like (row column) o
  | .negation inner => (holds judge row inner).map (!·)
  | .chain c parts => (holdsEach judge row parts).foldl c.combine (some c.neutral)

def holdsEach (judge : Judge) (row : Column → Value) :
    List (Expression (Value × Option String)) → List (Option Bool)
  | [] => []
  | part :: rest => holds judge row part :: holdsEach judge row rest

end

theorem holds_joined (judge : Judge) (row : Column → Value) (c : Connective)
    (parts : List (Expression (Value × Option String))) :
    (joined c parts).holds judge row = c.overall (holdsEach judge row parts) := by
  cases parts with
  | nil => rfl
  | cons part rest =>
      cases rest with
      | nil => exact (Connective.overall_singleton c _).symm
      | cons second others =>
          rw [joined, holds, Connective.foldl_combine, Connective.overall_neutral]
          intro part same
          cases same

end Expression

end NestedQuery.Sql

namespace NestedQuery.Filter

open Sql

variable (judge : Judge) (type : String → Option String)

mutual

/-- What a filter is of a record, given by the values of its fields. Equality with null is a test for
null. Values are compared as of the types of the fields. -/
def holds (record : String → Value) : Filter → Option Bool
  | .compare .eq field .null => some (record field).isNull
  | .compare .ne field .null => some (!(record field).isNull)
  | .compare comparison field value => tested (judge.compare comparison) (record field) (value, type field)
  | .isIn field values =>
    Connective.or.overall (values.map fun v => tested (judge.compare .eq) (record field) (v, type field))
  | .isNull field => some (record field).isNull
  | .isNotNull field => some (!(record field).isNull)
  | .like field pattern => tested judge.like (record field) (.text pattern, none)
  | .all filters => Connective.and.overall (holdsEach record filters)
  | .any filters => Connective.or.overall (holdsEach record filters)
  | .not filter => (holds record filter).map (!·)

def holdsEach (record : String → Value) : List Filter → List (Option Bool)
  | [] => []
  | filter :: rest => holds record filter :: holdsEach record rest

end

variable {judge : Judge} {type : String → Option String} {row : Column → Value}
  {column : String → Column}

mutual

theorem holds_expression : ∀ filter : Filter, (filter.expression column type).holds judge row =
    filter.holds judge type (fun field => row (column field))
  | .compare comparison field value => by
      by_cases isEq : comparison = .eq ∧ value = .null
      · obtain ⟨rfl, rfl⟩ := isEq
        rw [expression, holds, Expression.holds, beq_true]
      · by_cases isNe : comparison = .ne ∧ value = .null
        · obtain ⟨rfl, rfl⟩ := isNe
          rw [expression, holds, Expression.holds, beq_false]
        · have notEq : comparison = .eq → value = .null → False := fun c v => isEq ⟨c, v⟩
          have notNe : comparison = .ne → value = .null → False := fun c v => isNe ⟨c, v⟩
          rw [expression, holds, Expression.holds]
          all_goals assumption
  | .isIn field values => by
      rw [expression, holds]
      cases values with
      | nil => rfl
      | cons v rest =>
          rw [List.isEmpty_cons, if_neg Bool.false_ne_true, Expression.holds, Connective.foldl_combine,
            List.map_map]
          exact Connective.overall_neutral .or _
  | .isNull field => by
      rw [expression, holds, Expression.holds, beq_true]
  | .isNotNull field => by
      rw [expression, holds, Expression.holds, beq_false]
  | .like field pattern => by
      rw [expression, holds, Expression.holds]
  | .all filters => by
      rw [expression, holds, ← holdsEach_expressions filters]
      cases filters with
      | nil => rfl
      | cons filter rest => exact Expression.holds_joined judge row .and _
  | .any filters => by
      rw [expression, holds, ← holdsEach_expressions filters]
      cases filters with
      | nil => rfl
      | cons filter rest => exact Expression.holds_joined judge row .or _
  | .not filter => by
      rw [expression, holds, Expression.holds, holds_expression filter]

theorem holdsEach_expressions : ∀ filters : List Filter,
    Expression.holdsEach judge row (expressions column type filters) =
      holdsEach judge type (fun field => row (column field)) filters
  | [] => by
      rw [expressions, holdsEach, Expression.holdsEach]
  | filter :: rest => by
      rw [expressions, holdsEach, Expression.holdsEach, holds_expression filter,
        holdsEach_expressions rest]

end

end NestedQuery.Filter

namespace NestedQuery.Sql

theorem connective_word_mem : ∀ c : Connective, c.word ∈ operatorWords
  | .and => by decide
  | .or => by decide

theorem castable_of_check {format : Format} (checked : format.check = .ok ())
    (free : ∀ field ∈ format.fields, ∀ type, field.type = some type →
      ∀ w ∈ typeWords type, upper w ∉ operatorWords) (name : String) :
    Castable operatorWords (format.type? name) := by
  intro type given
  obtain ⟨field, found, declared⟩ := Option.bind_eq_some_iff.mp given
  have listed := (Format.field?_cases found).1
  exact ⟨(Format.check_plain checked).type field listed type declared, free field listed type declared⟩

theorem columnOf_known {format : Format} {name : String} (known : format.hasField name = true)
    (label : String) : ∃ field ∈ format.fields, field.name = name ∧
      columnOf format label name = ⟨label, field.column⟩ ∧ format.type? name = field.type := by
  obtain ⟨field, _, required⟩ := Format.requireColumn_of_hasField known
  obtain ⟨field, found, _⟩ := Format.requireColumn_cases required
  obtain ⟨listed, same⟩ := Format.field?_cases found
  refine ⟨field, listed, same, ?_, ?_⟩
  · rw [columnOf, Format.column?, found]
    rfl
  · rw [Format.type?, found]
    rfl

/-- A filter of known fields is rendered, as a text that is read as the conditions of the filter, on the
columns that are declared for its fields and with the values of its placeholders. These hold of a row, do
not, or are unknown, as the filter is of the row's record. -/
theorem predicate_means {format : Format} (checked : format.check = .ok ())
    (free : ∀ field ∈ format.fields, ∀ type, field.type = some type →
      ∀ w ∈ typeWords type, upper w ∉ operatorWords)
    {filter : Filter} (known : ∀ name ∈ filter.fields, format.hasField name = true)
    (label : String) (start : Nat) :
    ∃ f tree, predicate format label start filter = .ok f ∧
      Expression.read? operatorWords f.text = some tree ∧
      tree.resolve (Operand.bound? start f.params) =
        some (filter.expression (columnOf format label) format.type?) ∧
      (∀ name ∈ filter.fields, ∃ field ∈ format.fields, field.name = name ∧
        columnOf format label name = ⟨label, field.column⟩ ∧ format.type? name = field.type) ∧
      ∀ judge row, (filter.expression (columnOf format label) format.type?).holds judge row =
        filter.holds judge format.type? fun name => row (columnOf format label name) := by
  obtain ⟨f, rendered⟩ := predicate_succeeds filter start known
  obtain ⟨lexemes, tree, spelled, parsed, resolved⟩ := predicate_reads connective_word_mem
    (castable_of_check checked free) filter start rendered
  refine ⟨f, tree, rendered, ?_, resolved, fun name listed => columnOf_known (known name listed) label,
    fun judge row => Filter.holds_expression filter⟩
  have lexed : Lexeme.ofChars? f.text.toList = some lexemes := by
    rw [Fragment.text, Pieces.toList_text]
    exact spelled.ofChars?_eq nofun
  rw [Expression.read?, lexed, Option.bind_some, parsed.ofLexemes?]

/-- Devices whose fields are declared with types of several words, of one, of a list, and not at all. -/
def devices : Format where
  name := "device"
  table := "device"
  fields := [⟨"id", "id", some "uuid"⟩, ⟨"seenAt", "seen_at", some "timestamp with time zone"⟩,
    ⟨"tags", "tags", some "text[]"⟩, ⟨"label", "label", none⟩]

/-- Devices that are not both unseen or known, and like some others. -/
def someDevices : Filter :=
  .all [.not (.any [.compare .eq "seenAt" .null, .compare .lt "seenAt" (.text "2024-01-01"),
      .isIn "id" [.text "a", .null], .any []]),
    .all [.like "label" "a%"], .compare .ne "tags" (.text "a"), .isNotNull "id", .all []]

theorem predicate_means_someDevices :
    ∃ f tree, predicate devices "the \"device\"" 3 someDevices = .ok f ∧
      Expression.read? operatorWords f.text = some tree ∧
      ∀ judge row, (tree.resolve (Operand.bound? 3 f.params)).map (·.holds judge row) =
        some (someDevices.holds judge devices.type? fun name =>
          row (columnOf devices "the \"device\"" name)) := by
  have checked : devices.check = .ok () := by
    decide +kernel
  have free : ∀ field ∈ devices.fields, ∀ type, field.type = some type →
      ∀ w ∈ typeWords type, upper w ∉ operatorWords := by
    decide
  have known : ∀ name ∈ someDevices.fields, devices.hasField name = true := by
    decide
  obtain ⟨f, tree, rendered, read, resolved, _, holds⟩ :=
    predicate_means checked free known "the \"device\"" 3
  refine ⟨f, tree, rendered, read, fun judge row => ?_⟩
  rw [resolved, Option.map_some, holds]

end NestedQuery.Sql
