/- Conditions as they are read: comparisons bind tighter than `NOT`, this tighter than `AND`, this tighter
than `OR`, and the type of a cast goes on to a reserved word or a mark that is no part of a type. -/
import NestedQuery.Proofs.Lexemes
import NestedQuery.Proofs.Select

namespace NestedQuery.Sql

inductive Connective where
  | and
  | or
  deriving DecidableEq, Repr

def Connective.word : Connective → String
  | .and => "AND"
  | .or => "OR"

/-- A condition over operands of some kind. Parentheses are not kept. -/
inductive Expression (α : Type) where
  | constant (value : Bool)
  | nullTest (column : Column) (isNull : Bool)
  | compare (column : Column) (comparison : Comparison) (operand : α)
  | isIn (column : Column) (operands : List α)
  | like (column : Column) (operand : α)
  | negation (inner : Expression α)
  | chain (connective : Connective) (parts : List (Expression α))
  deriving Repr

namespace Expression

/-- A chain of one part is this part. -/
def joined {α : Type} (c : Connective) : List (Expression α) → Expression α
  | [part] => part
  | parts => .chain c parts

/-- Under a number of negations. -/
def negated {α : Type} (e : Expression α) : Nat → Expression α
  | 0 => e
  | n + 1 => negated (.negation e) n

end Expression

/-- What has been read of a condition before its current part, between two parentheses. -/
structure Level where
  /-- The finished alternatives, the last one first. -/
  alternatives : List (Expression Operand)
  /-- The finished parts of the current alternative, the last one first. -/
  conjuncts : List (Expression Operand)
  /-- How many negations stand before the current part. -/
  negations : Nat
  deriving Repr

namespace Level

def start : Level := ⟨[], [], 0⟩

def part (level : Level) (e : Expression Operand) : Expression Operand :=
  e.negated level.negations

/-- The alternative that ends with a part. -/
def alternative (level : Level) (e : Expression Operand) : Expression Operand :=
  .joined .and (level.part e :: level.conjuncts).reverse

def whole (level : Level) (e : Expression Operand) : Expression Operand :=
  .joined .or (level.alternative e :: level.alternatives).reverse

def next (level : Level) (e : Expression Operand) : Connective → Level
  | .and => ⟨level.alternatives, level.part e :: level.conjuncts, 0⟩
  | .or => ⟨level.alternative e :: level.alternatives, [], 0⟩

end Level

/-- What an operand is for. The values before it in a list stand in reverse. -/
inductive Use where
  | compare (column : Column) (comparison : Comparison)
  | like (column : Column)
  | member (column : Column) (before : List Operand)
  deriving Repr

def Use.condition? : Use → Operand → Option (Expression Operand)
  | .compare column comparison, o => some (.compare column comparison o)
  | .like column, o => some (.like column o)
  | .member _ _, _ => none

/-- What is expected next. -/
inductive Place where
  | condition
  | point (source : String)
  | column (source : String)
  | test (column : Column)
  | null (column : Column) (isNull : Bool)
  | list (column : Column)
  | operand (use : Use)
  | afterOperand (use : Use) (index : Nat)
  /-- In a cast, of whose type some characters have been read. -/
  | type (use : Use) (index : Nat) (chars : List Char)
  | afterCondition (e : Expression Operand)
  deriving Repr

/-- The condition that ends here. -/
def Place.condition? : Place → Option (Expression Operand)
  | .afterOperand use n => use.condition? ⟨n, none⟩
  | .type use n chars => if chars = [] then none else use.condition? ⟨n, some (String.ofList chars)⟩
  | .afterCondition e => some e
  | _ => none

/-- A condition that is partly read. -/
structure Reader where
  level : Level
  outer : List Level
  place : Place
  deriving Repr

/-- Words are the same in small and in capital letters. -/
def upper (word : String) : String := String.ofList (word.toList.map Char.toUpper)

/-- The type of a cast with one more lexeme, if that is a part of it. -/
def typeWith (reserved : List String) (chars : List Char) : Lexeme → Option (List Char)
  | .word w =>
    if upper w ∈ reserved then none
    else some (if chars = [] then w.toList else chars ++ ' ' :: w.toList)
  | .mark c => if chars ≠ [] ∧ (c = '[' ∨ c = ']') then some (chars ++ [c]) else none
  | _ => none

namespace Reader

def start : Reader := ⟨.start, [], .condition⟩

/-- After a condition there is a connective or a closing parenthesis. -/
def afterCondition (level : Level) (outer : List Level) (e : Expression Operand) : Lexeme → Option Reader
  | .word w =>
    if upper w = "AND" then some ⟨level.next e .and, outer, .condition⟩
    else if upper w = "OR" then some ⟨level.next e .or, outer, .condition⟩
    else none
  | .mark ')' =>
    match outer with
    | [] => none
    | before :: rest => some ⟨before, rest, .afterCondition (level.whole e)⟩
  | _ => none

def afterOperand (level : Level) (outer : List Level) (use : Use) (o : Operand) (l : Lexeme) :
    Option Reader :=
  match use, l with
  | .compare column comparison, l => afterCondition level outer (.compare column comparison o) l
  | .like column, l => afterCondition level outer (.like column o) l
  | .member column before, .mark ',' => some ⟨level, outer, .operand (.member column (o :: before))⟩
  | .member column before, .mark ')' =>
    some ⟨level, outer, .afterCondition (.isIn column (o :: before).reverse)⟩
  | .member _ _, _ => none

/-- Where a condition is expected there is a negation, an opening parenthesis, a constant or a column. -/
def condition (level : Level) (outer : List Level) : Lexeme → Option Reader
  | .word w =>
    if upper w = "NOT" then some ⟨{ level with negations := level.negations + 1 }, outer, .condition⟩
    else if upper w = "TRUE" then some ⟨level, outer, .afterCondition (.constant true)⟩
    else if upper w = "FALSE" then some ⟨level, outer, .afterCondition (.constant false)⟩
    else none
  | .mark '(' => some ⟨.start, level :: outer, .condition⟩
  | .name source => some ⟨level, outer, .point source⟩
  | _ => none

/-- How a column is tested. -/
def test (column : Column) : Lexeme → Option Place
  | .comparison c => some (.operand (.compare column c))
  | .word w =>
    if upper w = "IS" then some (.null column true)
    else if upper w = "IN" then some (.list column)
    else if upper w = "LIKE" then some (.operand (.like column))
    else none
  | _ => none

/-- What is tested to be null, or not to be. -/
def null (column : Column) (isNull : Bool) : Lexeme → Option Place
  | .word w =>
    if upper w = "NULL" then some (.afterCondition (.nullTest column isNull))
    else if upper w = "NOT" ∧ isNull then some (.null column false)
    else none
  | _ => none

/-- Takes one more lexeme. -/
def step (reserved : List String) (r : Reader) (l : Lexeme) : Option Reader :=
  match r.place, l with
  | .condition, l => condition r.level r.outer l
  | .point source, .mark '.' => some { r with place := .column source }
  | .column source, .name column => some { r with place := .test ⟨source, column⟩ }
  | .test column, l => (test column l).map fun place => { r with place := place }
  | .null column isNull, l => (null column isNull l).map fun place => { r with place := place }
  | .list column, .mark '(' => some { r with place := .operand (.member column []) }
  | .operand use, .placeholder n => some { r with place := .afterOperand use n }
  | .afterOperand use n, .cast => some { r with place := .type use n [] }
  | .afterOperand use n, l => afterOperand r.level r.outer use ⟨n, none⟩ l
  | .type use n chars, l =>
    match typeWith reserved chars l with
    | some longer => some { r with place := .type use n longer }
    | none =>
      if chars = [] then none else afterOperand r.level r.outer use ⟨n, some (String.ofList chars)⟩ l
  | .afterCondition e, l => afterCondition r.level r.outer e l
  | _, _ => none

/-- The condition that was read, if every parenthesis is closed. -/
def finish (r : Reader) : Option (Expression Operand) :=
  if r.outer.isEmpty then r.place.condition?.map r.level.whole else none

end Reader

/-- The condition that lexemes are. -/
def Expression.ofLexemes? (reserved : List String) (lexemes : List Lexeme) :
    Option (Expression Operand) :=
  (lexemes.foldlM (Reader.step reserved) .start).bind Reader.finish

/-- The condition that a text is. The types of casts end before reserved words. -/
def Expression.read? (reserved : List String) (text : String) : Option (Expression Operand) :=
  (Lexeme.ofChars? text.toList).bind (ofLexemes? reserved)

/-- The words that operators are written with. -/
def operatorWords : List String := ["AND", "OR", "NOT", "IS", "IN", "LIKE"]

section Parsing

variable {reserved : List String} {level : Level} {outer : List Level}

/-- What may stand after a condition: a connective, or a closing parenthesis. -/
inductive Lexeme.FollowsCondition : Lexeme → Prop
  | connective (c : Connective) : FollowsCondition (.word c.word)
  | closing : FollowsCondition (.mark ')')

/-- A reader that goes on, and ends, as if it stood after a condition. -/
structure Reader.Stands (reserved : List String) (level : Level) (outer : List Level)
    (e : Expression Operand) (r : Reader) : Prop where
  step : ∀ l : Lexeme, l.FollowsCondition →
    r.step reserved l = Reader.step reserved ⟨level, outer, .afterCondition e⟩ l
  finish : r.finish = Reader.finish ⟨level, outer, .afterCondition e⟩

/-- Lexemes that are a condition, wherever one is expected. -/
def Parsed (reserved : List String) (lexemes : List Lexeme) (e : Expression Operand) : Prop :=
  ∀ level outer, ∃ r, lexemes.foldlM (Reader.step reserved) ⟨level, outer, .condition⟩ = some r ∧
    r.Stands reserved level outer e

theorem Reader.Stands.self (e : Expression Operand) :
    Stands reserved level outer e ⟨level, outer, .afterCondition e⟩ := ⟨fun _ _ => rfl, rfl⟩

theorem Reader.foldlM_append {r next : Reader} {first : List Lexeme}
    (read : first.foldlM (step reserved) r = some next) (later : List Lexeme) :
    (first ++ later).foldlM (step reserved) r = later.foldlM (step reserved) next := by
  rw [List.foldlM_append, read]
  rfl

theorem Parsed.ofLexemes? {lexemes : List Lexeme} {e : Expression Operand}
    (parsed : Parsed reserved lexemes e) : Expression.ofLexemes? reserved lexemes = some e := by
  obtain ⟨r, read, stands⟩ := parsed .start []
  have begun : Reader.start = ⟨.start, [], .condition⟩ := rfl
  rw [Expression.ofLexemes?, begun, read, Option.bind_some, stands.finish]
  rfl

theorem Parsed.constant (value : Bool) :
    Parsed reserved [.word (if value then "TRUE" else "FALSE")] (.constant value) := by
  intro level outer
  refine ⟨⟨level, outer, .afterCondition (.constant value)⟩, ?_, .self _⟩
  cases value with
  | true => rfl
  | false => rfl

/-- The lexemes of a column. -/
def Column.lexemes (c : Column) : List Lexeme := [.name c.source, .mark '.', .name c.column]

theorem Parsed.nullTest (column : Column) (isNull : Bool) :
    Parsed reserved (column.lexemes ++ (if isNull then [.word "IS", .word "NULL"]
      else [.word "IS", .word "NOT", .word "NULL"])) (.nullTest column isNull) := by
  intro level outer
  refine ⟨⟨level, outer, .afterCondition (.nullTest column isNull)⟩, ?_, .self _⟩
  cases isNull with
  | true => rfl
  | false => rfl

/-- A condition in parentheses, after which a reader stands as before with this condition read. -/
theorem Parsed.enclosed {lexemes : List Lexeme} {e : Expression Operand}
    (read : ∀ outer, ∃ r, lexemes.foldlM (Reader.step reserved) ⟨.start, outer, .condition⟩ = some r ∧
      ∃ last e', r.Stands reserved last outer e' ∧ last.whole e' = e) :
    Parsed reserved (.mark '(' :: lexemes ++ [.mark ')']) e := by
  intro level outer
  obtain ⟨r, inner, last, e', stands, rfl⟩ := read (level :: outer)
  refine ⟨⟨level, outer, .afterCondition (last.whole e')⟩, ?_, .self _⟩
  have opened : [Lexeme.mark '('].foldlM (Reader.step reserved) ⟨level, outer, .condition⟩ =
      some ⟨.start, level :: outer, .condition⟩ := rfl
  rw [List.cons_append, ← List.singleton_append, Reader.foldlM_append opened,
    Reader.foldlM_append inner, List.foldlM_cons, stands.step _ .closing]
  rfl

theorem Parsed.negation {lexemes : List Lexeme} {e : Expression Operand}
    (parsed : Parsed reserved lexemes e) :
    Parsed reserved (.word "NOT" :: lexemes) (.negation e) := by
  intro level outer
  obtain ⟨r, read, stands⟩ := parsed ⟨level.alternatives, level.conjuncts, level.negations + 1⟩ outer
  have negated : [Lexeme.word "NOT"].foldlM (Reader.step reserved) ⟨level, outer, .condition⟩ =
      some ⟨⟨level.alternatives, level.conjuncts, level.negations + 1⟩, outer, .condition⟩ := rfl
  refine ⟨r, ?_, fun l follows => ?_, ?_⟩
  · rw [← List.singleton_append, Reader.foldlM_append negated, read]
  · rw [stands.step l follows]
    rfl
  · rw [stands.finish]
    rfl

/-- A level at which some parts of a chain have been read, the last one first. -/
def Level.holding (c : Connective) (parts : List (Expression Operand)) : Level :=
  match c with
  | .and => ⟨[], parts, 0⟩
  | .or => ⟨parts, [], 0⟩

theorem Level.whole_holding (c : Connective) (before : List (Expression Operand))
    (e : Expression Operand) :
    (Level.holding c before).whole e = .joined c (e :: before).reverse := by
  cases c with
  | and => rfl
  | or => rfl

/-- The parts of a chain are read one after another. -/
theorem Parsed.parts {c : Connective} {first : List Lexeme} {e : Expression Operand}
    {lexemes : List (List Lexeme)} {parts : List (Expression Operand)}
    (head : Parsed reserved first e) (tail : List.Forall₂ (Parsed reserved) lexemes parts)
    (before : List (Expression Operand)) (outer : List Level) :
    ∃ r, (first ++ lexemes.flatMap (.word c.word :: ·)).foldlM (Reader.step reserved)
        ⟨.holding c before, outer, .condition⟩ = some r ∧
      ∃ earlier last, r.Stands reserved (.holding c earlier) outer last ∧
        (last :: earlier).reverse = before.reverse ++ e :: parts := by
  induction tail generalizing first e before with
  | nil =>
      obtain ⟨r, read, stands⟩ := head (.holding c before) outer
      refine ⟨r, ?_, before, e, stands, List.reverse_cons⟩
      rwa [List.flatMap_nil, List.append_nil]
  | cons second others ih =>
      obtain ⟨r, read, stands⟩ := head (.holding c before) outer
      obtain ⟨r', later, earlier, last, stands', all⟩ := ih second (e :: before)
      have connected : r.step reserved (.word c.word) =
          some ⟨.holding c (e :: before), outer, .condition⟩ := by
        rw [stands.step _ (.connective c)]
        cases c with
        | and => rfl
        | or => rfl
      refine ⟨r', ?_, earlier, last, stands', ?_⟩
      · rw [Reader.foldlM_append read, List.flatMap_cons, List.cons_append, List.foldlM_cons, connected]
        exact later
      · rw [all, List.reverse_cons, List.append_assoc]
        rfl

theorem Parsed.chain (c : Connective) {first : List Lexeme} {e : Expression Operand}
    {lexemes : List (List Lexeme)} {parts : List (Expression Operand)}
    (head : Parsed reserved first e) (tail : List.Forall₂ (Parsed reserved) lexemes parts) :
    Parsed reserved (.mark '(' :: (first ++ lexemes.flatMap (.word c.word :: ·)) ++ [.mark ')'])
      (.joined c (e :: parts)) := by
  refine .enclosed fun outer => ?_
  have start : Level.start = .holding c [] := by
    cases c with
    | and => rfl
    | or => rfl
  obtain ⟨r, read, earlier, last, stands, all⟩ := Parsed.parts (c := c) head tail [] outer
  refine ⟨r, start ▸ read, .holding c earlier, last, stands, ?_⟩
  rw [Level.whole_holding, all]
  rfl

example : Expression.read? operatorWords "NOT \"t\".\"a\" = $1 AND \"t\".\"b\" IS NULL OR TRUE" =
    some (.chain .or [.chain .and [.negation (.compare ⟨"t", "a"⟩ .eq ⟨1, none⟩),
      .nullTest ⟨"t", "b"⟩ true], .constant true]) := by
  cbv

/-- The words of a type that further ones follow. -/
theorem Reader.foldlM_words {use : Use} {n : Nat} {words : List (List Char)}
    (free : ∀ w ∈ words, upper (String.ofList w) ∉ reserved) {chars : List Char} (some : chars ≠ []) :
    (words.map fun w => Lexeme.word (String.ofList w)).foldlM (step reserved)
        ⟨level, outer, .type use n chars⟩ =
      Option.some ⟨level, outer, .type use n (chars ++ words.flatMap (' ' :: ·))⟩ := by
  induction words generalizing chars with
  | nil => simp
  | cons w rest ih =>
      obtain ⟨here, later⟩ := List.forall_mem_cons.mp free
      have taken : step reserved ⟨level, outer, .type use n chars⟩ (.word (String.ofList w)) =
          Option.some ⟨level, outer, .type use n (chars ++ ' ' :: w)⟩ := by
        simp only [step, typeWith, if_neg here, if_neg some, String.toList_ofList]
      rw [List.map_cons, List.foldlM_cons, taken]
      refine (ih later (List.append_ne_nil_of_left_ne_nil some _)).trans ?_
      rw [List.append_assoc]
      rfl

theorem Reader.foldlM_type {use : Use} {n : Nat} {first : List Char} {rest : List (List Char)}
    (isArray : Bool) (some : first ≠ []) (free : ∀ w ∈ first :: rest, upper (String.ofList w) ∉ reserved) :
    (typeLexemes (first :: rest) isArray).foldlM (step reserved) ⟨level, outer, .type use n []⟩ =
      Option.some ⟨level, outer, .type use n (typeChars first rest isArray)⟩ := by
  obtain ⟨here, later⟩ := List.forall_mem_cons.mp free
  have begun : [Lexeme.word (String.ofList first)].foldlM (step reserved)
      ⟨level, outer, .type use n []⟩ = Option.some ⟨level, outer, .type use n first⟩ := by
    simp [step, typeWith, here]
  have words : ((first :: rest).map fun w => Lexeme.word (String.ofList w)).foldlM (step reserved)
      ⟨level, outer, .type use n []⟩ =
        Option.some ⟨level, outer, .type use n (first ++ rest.flatMap (' ' :: ·))⟩ := by
    rw [List.map_cons, ← List.singleton_append, foldlM_append begun]
    exact foldlM_words later some
  rw [typeLexemes, foldlM_append words, typeChars]
  cases isArray with
  | false =>
      rw [if_neg Bool.false_ne_true, if_neg Bool.false_ne_true, List.append_nil]
      rfl
  | true =>
      simp [step, typeWith, some]

/-- What an operand is read from: a placeholder, and the type that it is cast to. -/
inductive Operand.Lexed (reserved : List String) : Operand → List Lexeme → Prop
  | plain (n : Nat) : Lexed reserved ⟨n, none⟩ [.placeholder n]
  | cast (n : Nat) {first : List Char} {rest : List (List Char)} (isArray : Bool)
      (words : ∀ w ∈ first :: rest, Text.isIdentifier (String.ofList w) = true)
      (free : ∀ w ∈ first :: rest, upper (String.ofList w) ∉ reserved) :
      Lexed reserved ⟨n, some (String.ofList (typeChars first rest isArray))⟩
        (.placeholder n :: .cast :: typeLexemes (first :: rest) isArray)

/-- What may stand after an operand: what may stand after a condition, or a comma. -/
inductive Lexeme.FollowsOperand : Lexeme → Prop
  | condition {l : Lexeme} (follows : l.FollowsCondition) : FollowsOperand l
  | comma : FollowsOperand (.mark ',')

/-- A reader that goes on, and ends, as after an operand. -/
structure Reader.StandsAfter (reserved : List String) (level : Level) (outer : List Level) (use : Use)
    (o : Operand) (r : Reader) : Prop where
  step : ∀ l : Lexeme, l.FollowsOperand →
    r.step reserved l = Reader.afterOperand level outer use o l
  finish : r.finish = if outer.isEmpty then (use.condition? o).map level.whole else none

theorem Operand.Lexed.read {o : Operand} {lexemes : List Lexeme} (lexed : o.Lexed reserved lexemes)
    (connectives : ∀ c : Connective, c.word ∈ reserved) (use : Use) (level : Level)
    (outer : List Level) :
    ∃ r, lexemes.foldlM (Reader.step reserved) ⟨level, outer, .operand use⟩ = some r ∧
      r.StandsAfter reserved level outer use o := by
  cases lexed with
  | plain n =>
      refine ⟨⟨level, outer, .afterOperand use n⟩, rfl, fun l follows => ?_, rfl⟩
      cases follows with
      | condition follows =>
          cases follows with
          | connective c => rfl
          | closing => rfl
      | comma => rfl
  | @cast n first rest isArray words free =>
      have some : first ≠ [] := by
        rintro rfl
        exact absurd (words [] (List.mem_cons_self ..)) (by decide)
      have whole : typeChars first rest isArray ≠ [] := by
        rw [typeChars, List.append_assoc]
        exact List.append_ne_nil_of_left_ne_nil some _
      refine ⟨⟨level, outer, .type use n (typeChars first rest isArray)⟩, ?_, fun l follows => ?_, ?_⟩
      · exact Reader.foldlM_type isArray some free
      · have ends : typeWith reserved (typeChars first rest isArray) l = none := by
          cases follows with
          | condition follows =>
              cases follows with
              | connective c =>
                  have same : upper c.word = c.word := by
                    cases c <;> decide
                  rw [typeWith, same, if_pos (connectives c)]
              | closing => simp [typeWith]
          | comma => simp [typeWith]
        simp only [Reader.step, ends, if_neg whole]
      · simp only [Reader.finish, Place.condition?, if_neg whole]

/-- After an operand that ends a condition, a reader stands after this condition. -/
theorem Reader.StandsAfter.stands {use : Use} {o : Operand} {r : Reader} {e : Expression Operand}
    (stands : r.StandsAfter reserved level outer use o) (whole : use.condition? o = some e) :
    r.Stands reserved level outer e := by
  refine ⟨fun l follows => ?_, ?_⟩
  · rw [stands.step l (.condition follows)]
    cases use with
    | compare column comparison =>
        cases whole
        rfl
    | like column =>
        cases whole
        rfl
    | member column before => cases whole
  · rw [stands.finish, whole]
    rfl

/-- A column, a test, and the operand that it is tested with. -/
theorem Parsed.tested {column : Column} (use : Use) {o : Operand} {test lexemes : List Lexeme}
    {e : Expression Operand} (lexed : o.Lexed reserved lexemes)
    (connectives : ∀ c : Connective, c.word ∈ reserved) (whole : use.condition? o = some e)
    (tests : ∀ level outer, (column.lexemes ++ test).foldlM (Reader.step reserved)
      ⟨level, outer, .condition⟩ = some ⟨level, outer, .operand use⟩) :
    Parsed reserved (column.lexemes ++ test ++ lexemes) e := by
  intro level outer
  obtain ⟨r, read, stands⟩ := lexed.read connectives use level outer
  exact ⟨r, by rw [Reader.foldlM_append (tests level outer), read], stands.stands whole⟩

theorem Parsed.compare (column : Column) (comparison : Comparison) {o : Operand}
    {lexemes : List Lexeme} (lexed : o.Lexed reserved lexemes)
    (connectives : ∀ c : Connective, c.word ∈ reserved) :
    Parsed reserved (column.lexemes ++ [.comparison comparison] ++ lexemes)
      (.compare column comparison o) :=
  .tested (.compare column comparison) lexed connectives rfl fun _ _ => rfl

theorem Parsed.like (column : Column) {o : Operand} {lexemes : List Lexeme}
    (lexed : o.Lexed reserved lexemes) (connectives : ∀ c : Connective, c.word ∈ reserved) :
    Parsed reserved (column.lexemes ++ [.word "LIKE"] ++ lexemes) (.like column o) :=
  .tested (.like column) lexed connectives rfl fun _ _ => rfl

/-- The operands of a list are read one after another. -/
theorem Operand.Lexed.list (column : Column) {o : Operand} {first : List Lexeme}
    {lexemes : List (List Lexeme)} {operands : List Operand} (head : o.Lexed reserved first)
    (tail : List.Forall₂ (Operand.Lexed reserved) operands lexemes)
    (connectives : ∀ c : Connective, c.word ∈ reserved) (level : Level) (outer : List Level)
    (before : List Operand) :
    ∃ r, (first ++ lexemes.flatMap (.mark ',' :: ·)).foldlM (Reader.step reserved)
        ⟨level, outer, .operand (.member column before)⟩ = some r ∧
      ∃ earlier last, r.StandsAfter reserved level outer (.member column earlier) last ∧
        (last :: earlier).reverse = before.reverse ++ o :: operands := by
  induction tail generalizing first o before with
  | nil =>
      obtain ⟨r, read, stands⟩ := head.read connectives (.member column before) level outer
      refine ⟨r, ?_, before, o, stands, List.reverse_cons⟩
      rwa [List.flatMap_nil, List.append_nil]
  | cons second others ih =>
      obtain ⟨r, read, stands⟩ := head.read connectives (.member column before) level outer
      obtain ⟨r', later, earlier, last, stands', all⟩ := ih second (o :: before)
      refine ⟨r', ?_, earlier, last, stands', ?_⟩
      · rw [Reader.foldlM_append read, List.flatMap_cons, List.cons_append, List.foldlM_cons,
          stands.step _ .comma]
        exact later
      · rw [all, List.reverse_cons, List.append_assoc]
        rfl

theorem Parsed.isIn (column : Column) {o : Operand} {first : List Lexeme}
    {lexemes : List (List Lexeme)} {operands : List Operand} (head : o.Lexed reserved first)
    (tail : List.Forall₂ (Operand.Lexed reserved) operands lexemes)
    (connectives : ∀ c : Connective, c.word ∈ reserved) :
    Parsed reserved (column.lexemes ++ [Lexeme.word "IN", .mark '('] ++
      (first ++ lexemes.flatMap (.mark ',' :: ·)) ++ [.mark ')']) (.isIn column (o :: operands)) := by
  intro level outer
  obtain ⟨r, read, earlier, last, stands, all⟩ :=
    head.list column tail connectives level outer []
  have opened : (column.lexemes ++ [Lexeme.word "IN", .mark '(']).foldlM (Reader.step reserved)
      ⟨level, outer, .condition⟩ = some ⟨level, outer, .operand (.member column [])⟩ := rfl
  refine ⟨⟨level, outer, .afterCondition (.isIn column (o :: operands))⟩, ?_, .self _⟩
  rw [List.append_assoc, Reader.foldlM_append opened, Reader.foldlM_append read, List.foldlM_cons,
    stands.step _ (.condition .closing)]
  change some (Reader.mk level outer (.afterCondition (.isIn column (last :: earlier).reverse))) = _
  rw [all]
  rfl

end Parsing

end NestedQuery.Sql
