/- How filters are read: the text of a filter is read as the filter's own conditions on the columns of its
fields, with its values for the placeholders. -/
import NestedQuery.Proofs.Grammar

namespace NestedQuery.Sql

namespace Pieces

/-- The characters of a text. -/
def chars (text : Pieces) : List Char := text.flatMap (·.text.toList)

theorem toList_text (text : Pieces) : (Pieces.text text).toList = text.chars := by
  induction text with
  | nil => rfl
  | cons p rest ih =>
      rw [text_cons_toList, ih]
      rfl

theorem chars_append (a b : Pieces) : chars (a ++ b) = chars a ++ chars b := List.flatMap_append

theorem chars_cons (p : Piece) (rest : Pieces) : chars (p :: rest) = p.text.toList ++ chars rest := rfl

theorem chars_words (words : String) : chars [.words words] = words.toList := List.append_nil _

end Pieces

open Pieces (chars)

namespace ReadAs

theorem column (c : Column) : Spelled (chars c.pieces) c.lexemes := by
  have source := then_mark (name c.source) (c := '.') (by decide)
  have whole := source.append (name c.column) fun _ _ => trivial
  have text : chars c.pieces =
      (Text.quotedName c.source).toList ++ ['.'] ++ (Text.quotedName c.column).toList := by
    simp [chars, Column.pieces, Piece.text]
  rw [text]
  exact whole

/-- A column, and how it is tested. -/
theorem tested (c : Column) {test : String} {signs lexemes : List Lexeme} {operands : Pieces}
    (settled : Settled test.toList signs) (apart : ∀ rest, Apart (test.toList ++ rest))
    (spelled : Spelled (chars operands) lexemes) :
    Spelled (chars (c.pieces ++ .words test :: operands)) (c.lexemes ++ signs ++ lexemes) := by
  have read := (column c).append settled fun rest _ => apart rest
  rw [Pieces.chars_append, Pieces.chars_cons, ← List.append_assoc]
  exact read.append spelled fun _ _ => trivial

end ReadAs

/-- A declared type whose words are not reserved can be read. -/
def Castable (reserved : List String) (type : Option String) : Prop :=
  ∀ t, type = some t → Text.isColumnType t = true ∧ ∀ w ∈ typeWords t, upper w ∉ reserved

variable {reserved : List String}

theorem parameter_lexed {type : Option String} (castable : Castable reserved type) (n : Nat) :
    ∃ lexemes, Operand.Lexed reserved ⟨n, type⟩ lexemes ∧ Spelled (chars (parameter n type)) lexemes := by
  cases type with
  | none =>
      refine ⟨_, .plain n, ?_⟩
      have text : chars (parameter n none) = (Piece.text (.placeholder n)).toList := List.append_nil _
      rw [text]
      exact ReadAs.placeholder n
  | some t =>
      obtain ⟨plain, free⟩ := castable t rfl
      obtain ⟨first, rest, isArray, same, words⟩ := (isType_cases t.toList).1 plain
      obtain rfl : t = String.ofList (typeChars first rest isArray) := by
        rw [← same, String.ofList_toList]
      refine ⟨_, .cast n isArray words fun w listed => free _ (mem_typeWords words listed), ?_⟩
      have colons : Settled [':', ':'] [.cast] := ReadAs.next (by decide) fun rest _ => rfl
      have cast := colons.append (ReadAs.type isArray words) fun _ _ => trivial
      have whole := (ReadAs.placeholder n).append cast fun rest _ => apart_cons (by decide) _
      have text : chars (parameter n (some (String.ofList (typeChars first rest isArray)))) =
          (Piece.text (.placeholder n)).toList ++ ([':', ':'] ++ typeChars first rest isArray) := by
        simp [chars, parameter, Piece.text_cast]
      rw [text]
      exact whole

theorem parameters_eq (start count : Nat) (type : Option String) :
    parameters start count type = (List.range' start count).map (parameter · type) := by
  rw [parameters, List.range'_eq_map_range, List.map_map]
  rfl

theorem parameters_lexed {type : Option String} (castable : Castable reserved type) (indices : List Nat) :
    ∃ lexemes, List.Forall₂ (Operand.Lexed reserved) (indices.map (⟨·, type⟩)) lexemes ∧
      List.Forall₂ (fun text lexemes => Spelled (chars text) lexemes)
        (indices.map (parameter · type)) lexemes := by
  induction indices with
  | nil => exact ⟨[], .nil, .nil⟩
  | cons n rest ih =>
      obtain ⟨first, lexed, spelled⟩ := parameter_lexed castable n
      obtain ⟨others, allLexed, allSpelled⟩ := ih
      exact ⟨first :: others, .cons lexed allLexed, .cons spelled allSpelled⟩

/-- Parts that are read one by one, with a separator between them. -/
theorem separated_lexed {separator : String} {l : Lexeme} (settled : Settled separator.toList [l])
    (apart : ∀ rest, Apart (separator.toList ++ rest)) {part : Pieces} {first : List Lexeme}
    {parts : List Pieces} {lexemes : List (List Lexeme)} (head : Spelled (chars part) first)
    (tail : List.Forall₂ (fun text lexemes => Spelled (chars text) lexemes) parts lexemes) :
    Spelled (chars (Pieces.separated separator (part :: parts)))
      (first ++ lexemes.flatMap (l :: ·)) := by
  rw [Pieces.separated_eq]
  induction tail generalizing part first with
  | nil =>
      rw [List.flatMap_nil, List.flatMap_nil, List.append_nil, List.append_nil]
      exact head
  | @cons second lexemes' parts lexemes here _ ih =>
      have later := settled.append (ih here) fun _ _ => trivial
      have whole := head.append later fun rest _ => by
        rw [List.append_assoc]
        exact apart _
      have text : chars (part ++ (second :: parts).flatMap (.words separator :: ·)) =
          chars part ++ (separator.toList ++ chars (second ++ parts.flatMap (.words separator :: ·))) := by
        simp [chars, Piece.text]
      rw [text]
      exact whole

namespace ReadAs

theorem compared (c : Column) (comparison : Comparison) {operand : Pieces} {lexemes : List Lexeme}
    (spelled : Spelled (chars operand) lexemes) :
    Spelled (chars (c.pieces ++ .words s!" {Comparison.sign comparison} " :: operand))
      (c.lexemes ++ [.comparison comparison] ++ lexemes) := by
  refine tested c (.comparison comparison) (fun rest => ?_) spelled
  cases comparison <;> exact apart_cons (by decide) _

/-- A column, and the operands of a list. -/
theorem listed (c : Column) {operand : Pieces} {first : List Lexeme} {operands : List Pieces}
    {lexemes : List (List Lexeme)} (head : Spelled (chars operand) first)
    (tail : List.Forall₂ (fun text lexemes => Spelled (chars text) lexemes) operands lexemes) :
    Spelled (chars (c.pieces ++ .words " IN (" ::
        Pieces.separated ", " (operand :: operands) ++ [.words ")"]))
      (c.lexemes ++ [.word "IN", .mark '('] ++ (first ++ lexemes.flatMap (.mark ',' :: ·)) ++
        [.mark ')']) := by
  have comma : Settled ", ".toList [.mark ','] := (mark (by decide)).append nil.space fun _ _ => trivial
  have opened : Settled " IN (".toList [.word "IN", .mark '('] :=
    ((identifier "IN" (by decide)).then_space.append (mark (c := '(') (by decide))
      fun _ _ => trivial).space
  have list := separated_lexed comma (fun _ => apart_cons (by decide) _) head tail
  have closed : Spelled (chars (Pieces.separated ", " (operand :: operands) ++ [.words ")"]))
      (first ++ lexemes.flatMap (.mark ',' :: ·) ++ [.mark ')']) := by
    rw [Pieces.chars_append, Pieces.chars_words]
    exact .of_settled (list.then_mark (c := ')') (by decide))
  rw [List.append_assoc, List.cons_append, List.append_assoc (_ ++ _)]
  exact tested c opened (fun _ => apart_cons (by decide) _) closed

end ReadAs

namespace Expression

variable {α β : Type}

mutual

/-- The same condition on what its operands stand for, if each of them stands for something. -/
def resolve (value : α → Option β) : Expression α → Option (Expression β)
  | .constant b => some (.constant b)
  | .nullTest column isNull => some (.nullTest column isNull)
  | .compare column comparison o => (value o).map (.compare column comparison)
  | .isIn column operands => (operands.mapM value).map (.isIn column)
  | .like column o => (value o).map (.like column)
  | .negation inner => (resolve value inner).map .negation
  | .chain c parts => (resolveAll value parts).map (.chain c)

def resolveAll (value : α → Option β) : List (Expression α) → Option (List (Expression β))
  | [] => some []
  | part :: rest => (resolve value part).bind fun p => (resolveAll value rest).map (p :: ·)

end

theorem mapM_mono {f g : α → Option β} (more : ∀ a b, f a = some b → g a = some b) {xs : List α}
    {ys : List β} (done : xs.mapM f = some ys) : xs.mapM g = some ys := by
  induction xs generalizing ys with
  | nil => exact done
  | cons x rest ih =>
      rw [List.mapM_cons] at done ⊢
      obtain ⟨y, first, done⟩ := Option.bind_eq_some_iff.mp done
      obtain ⟨others, later, done⟩ := Option.bind_eq_some_iff.mp done
      rw [more x y first, ih later]
      exact done

mutual

/-- Operands that stand for something more stand for the same in the whole condition. -/
theorem resolve_mono {f g : α → Option β} (more : ∀ a b, f a = some b → g a = some b) :
    ∀ {e : Expression α} {e' : Expression β}, resolve f e = some e' → resolve g e = some e'
  | .constant _, _, done => done
  | .nullTest _ _, _, done => done
  | .compare column comparison o, e', done => by
      obtain ⟨b, found, rfl⟩ := Option.map_eq_some_iff.mp done
      rw [resolve, more o b found]
      rfl
  | .isIn column operands, e', done => by
      obtain ⟨bs, found, rfl⟩ := Option.map_eq_some_iff.mp done
      rw [resolve, mapM_mono more found]
      rfl
  | .like column o, e', done => by
      obtain ⟨b, found, rfl⟩ := Option.map_eq_some_iff.mp done
      rw [resolve, more o b found]
      rfl
  | .negation inner, e', done => by
      obtain ⟨b, found, rfl⟩ := Option.map_eq_some_iff.mp done
      rw [resolve, resolve_mono more found]
      rfl
  | .chain c parts, e', done => by
      obtain ⟨bs, found, rfl⟩ := Option.map_eq_some_iff.mp done
      rw [resolve, resolveAll_mono more found]
      rfl

theorem resolveAll_mono {f g : α → Option β} (more : ∀ a b, f a = some b → g a = some b) :
    ∀ {es : List (Expression α)} {es' : List (Expression β)},
      resolveAll f es = some es' → resolveAll g es = some es'
  | [], _, done => done
  | part :: rest, es', done => by
      obtain ⟨p, first, done⟩ := Option.bind_eq_some_iff.mp done
      obtain ⟨others, later, rfl⟩ := Option.map_eq_some_iff.mp done
      rw [resolveAll, resolve_mono more first, resolveAll_mono more later]
      rfl

end

theorem resolve_joined {value : α → Option β} {c : Connective} {parts : List (Expression α)}
    {resolved : List (Expression β)} (done : resolveAll value parts = some resolved) :
    resolve value (joined c parts) = some (joined c resolved) := by
  match parts, done with
  | [], done =>
      cases done
      rfl
  | [part], done =>
      obtain ⟨p, first, done⟩ := Option.bind_eq_some_iff.mp done
      cases done
      exact first
  | part :: second :: rest, done =>
      obtain ⟨p, _, tail⟩ := Option.bind_eq_some_iff.mp done
      obtain ⟨others, later, rfl⟩ := Option.map_eq_some_iff.mp tail
      obtain ⟨q, _, tail⟩ := Option.bind_eq_some_iff.mp later
      obtain ⟨more, _, rfl⟩ := Option.map_eq_some_iff.mp tail
      rw [joined, resolve, done]
      · rfl
      · exact fun _ => nofun

end Expression

/-- What an operand stands for where placeholders are counted from a start on. -/
def Operand.bound? (start : Nat) (params : List Value) (o : Operand) : Option (Value × Option String) :=
  if start ≤ o.index then (params[o.index - start]?).map (·, o.type) else none

theorem Operand.bound?_within {start : Nat} (before : List Value) {params : List Value}
    (after : List Value) {o : Operand} {b : Value × Option String}
    (found : o.bound? (start + before.length) params = some b) :
    o.bound? start (before ++ params ++ after) = some b := by
  unfold bound? at found ⊢
  split at found
  · next counted =>
      obtain ⟨v, listed, rfl⟩ := Option.map_eq_some_iff.mp found
      have inside := (List.getElem?_eq_some_iff.mp listed).1
      have index : o.index - start = before.length + (o.index - (start + before.length)) := by omega
      rw [if_pos (by omega), List.append_assoc, List.getElem?_append_right (by omega), index,
        Nat.add_sub_cancel_left, List.getElem?_append_left inside, listed]
      rfl
  · cases found

theorem Operand.bound?_at (type : Option String) (start : Nat) (before : List Value) (v : Value)
    (after : List Value) :
    Operand.bound? start (before ++ v :: after) ⟨start + before.length, type⟩ = some (v, type) := by
  simp [bound?]

theorem Operand.bound?_counted (type : Option String) (start : Nat) (before values : List Value) :
    ((List.range' (start + before.length) values.length).map (⟨·, type⟩)).mapM
        (Operand.bound? start (before ++ values)) = some (values.map (·, type)) := by
  induction values generalizing before with
  | nil => rfl
  | cons v rest ih =>
      have later := ih (before ++ [v])
      rw [List.append_assoc, List.length_append, List.singleton_append, ← Nat.add_assoc] at later
      rw [List.length_cons, List.range'_succ, List.map_cons, List.mapM_cons]
      exact Option.bind_eq_some_iff.mpr
        ⟨_, bound?_at type start before v rest, Option.bind_eq_some_iff.mpr ⟨_, later, rfl⟩⟩

/-- The text of a fragment is read as a condition, with the fragment's values for its placeholders. -/
def Reads (reserved : List String) (start : Nat) (f : Fragment)
    (e : Expression (Value × Option String)) : Prop :=
  ∃ lexemes tree, Spelled (chars f.pieces) lexemes ∧ Parsed reserved lexemes tree ∧
    tree.resolve (Operand.bound? start f.params) = some e

/-- Fragments one after another are read as conditions. -/
inductive ReadsAll (reserved : List String) :
    Nat → List Fragment → List (Expression (Value × Option String)) → Prop
  | nil {start : Nat} : ReadsAll reserved start [] []
  | cons {start : Nat} {f : Fragment} {rest : List Fragment} {e : Expression (Value × Option String)}
      {others : List (Expression (Value × Option String))} (head : Reads reserved start f e)
      (tail : ReadsAll reserved (f.next start) rest others) :
      ReadsAll reserved start (f :: rest) (e :: others)

theorem ReadsAll.lexed {start : Nat} {parts : List Fragment}
    {conditions : List (Expression (Value × Option String))}
    (all : ReadsAll reserved start parts conditions) :
    ∃ lexemes trees, List.Forall₂ (fun text lexemes => Spelled (chars text) lexemes)
        (parts.map (·.pieces)) lexemes ∧
      List.Forall₂ (Parsed reserved) lexemes trees ∧
      Expression.resolveAll (Operand.bound? start (parts.flatMap (·.params))) trees = some conditions := by
  induction all with
  | nil => exact ⟨[], [], .nil, .nil, rfl⟩
  | @cons start f rest e others head _ ih =>
      obtain ⟨lexemes, tree, spelled, parsed, resolved⟩ := head
      obtain ⟨later, trees, allSpelled, allParsed, allResolved⟩ := ih
      refine ⟨lexemes :: later, tree :: trees, .cons spelled allSpelled, .cons parsed allParsed, ?_⟩
      have here : tree.resolve (Operand.bound? start ((f :: rest).flatMap (·.params))) = some e := by
        refine Expression.resolve_mono (fun o b found => ?_) resolved
        exact Operand.bound?_within [] _ found
      have after : Expression.resolveAll (Operand.bound? start ((f :: rest).flatMap (·.params))) trees =
          some others := by
        refine Expression.resolveAll_mono (fun o b found => ?_) allResolved
        have within := Operand.bound?_within f.params [] found
        rwa [List.append_nil] at within
      rw [Expression.resolveAll, here, after]
      rfl

namespace Reads

variable {start : Nat}

theorem constant (value : Bool) :
    Reads reserved start (.ofPieces [.words (if value then "TRUE" else "FALSE")]) (.constant value) := by
  refine ⟨_, _, ?_, .constant value, rfl⟩
  cases value with
  | true => exact ReadAs.identifier "TRUE" (by decide)
  | false => exact ReadAs.identifier "FALSE" (by decide)

theorem nullTest (column : Column) (isNull : Bool) :
    Reads reserved start (Sql.nullTest column isNull) (.nullTest column isNull) := by
  refine ⟨_, _, ?_, .nullTest column isNull, rfl⟩
  have meets : ∀ text rest, Apart (' ' :: text ++ rest) := fun _ _ => apart_cons (by decide) _
  rw [Sql.nullTest, Fragment.ofPieces, Pieces.chars_append, Pieces.chars_words]
  cases isNull with
  | true =>
      exact (ReadAs.column column).append (ReadAs.words "IS".toList ["NULL".toList] (by decide)).space
        fun rest _ => meets _ rest
  | false =>
      exact (ReadAs.column column).append
        (ReadAs.words "IS".toList ["NOT".toList, "NULL".toList] (by decide)).space fun rest _ => meets _ rest

theorem compare (connectives : ∀ c : Connective, c.word ∈ reserved) {type : Option String}
    (castable : Castable reserved type) (column : Column) (comparison : Comparison) (value : Value) :
    Reads reserved start ⟨column.pieces ++ .words s!" {Comparison.sign comparison} "
      :: parameter start type, [value]⟩ (.compare column comparison (value, type)) := by
  obtain ⟨lexemes, lexed, spelled⟩ := parameter_lexed castable start
  exact ⟨_, _, ReadAs.compared column comparison spelled, .compare column comparison lexed connectives,
    congrArg (Option.map _) (Operand.bound?_at type start [] value [])⟩

theorem like (connectives : ∀ c : Connective, c.word ∈ reserved) (column : Column) (pattern : String) :
    Reads reserved start ⟨column.pieces ++ .words " LIKE " :: parameter start none, [.text pattern]⟩
      (.like column (.text pattern, none)) := by
  have castable : Castable reserved none := nofun
  obtain ⟨lexemes, lexed, spelled⟩ := parameter_lexed castable start
  refine ⟨_, _, ?_, .like column lexed connectives, ?_⟩
  · have word : Settled " LIKE ".toList [.word "LIKE"] :=
      (ReadAs.identifier "LIKE" (by decide)).then_space.space
    exact ReadAs.tested column word (fun _ => apart_cons (by decide) _) spelled
  · exact congrArg (Option.map _) (Operand.bound?_at none start [] (.text pattern) [])

theorem isIn (connectives : ∀ c : Connective, c.word ∈ reserved) {type : Option String}
    (castable : Castable reserved type) (column : Column) (first : Value) (rest : List Value) :
    Reads reserved start ⟨column.pieces ++ .words " IN ("
      :: Pieces.separated ", " (parameters start (first :: rest).length type) ++ [.words ")"],
      first :: rest⟩ (.isIn column ((first :: rest).map (·, type))) := by
  have counted : List.range' start (first :: rest).length =
      start :: List.range' (start + 1) rest.length := rfl
  obtain ⟨lexemes, lexed, spelled⟩ := parameter_lexed castable start
  obtain ⟨others, allLexed, allSpelled⟩ :=
    parameters_lexed castable (List.range' (start + 1) rest.length)
  refine ⟨_, _, ?_, .isIn column lexed allLexed connectives, ?_⟩
  · rw [parameters_eq, counted]
    exact ReadAs.listed column spelled allSpelled
  · have bound := Operand.bound?_counted type start [] (first :: rest)
    rw [List.length_nil, Nat.add_zero, counted] at bound
    exact congrArg (Option.map _) bound

theorem negation {f : Fragment} {e : Expression (Value × Option String)}
    (inner : Reads reserved start f e) :
    Reads reserved start ⟨.words "NOT (" :: f.pieces ++ [.words ")"], f.params⟩ (.negation e) := by
  obtain ⟨lexemes, tree, spelled, parsed, resolved⟩ := inner
  have enclosed : Parsed reserved (.mark '(' :: lexemes ++ [.mark ')']) tree :=
    .enclosed fun outer => by
      obtain ⟨r, read, stands⟩ := parsed .start outer
      exact ⟨r, read, .start, tree, stands, rfl⟩
  refine ⟨_, _, ?_, .negation enclosed, ?_⟩
  · have opened : Settled "NOT (".toList [.word "NOT", .mark '('] :=
      (ReadAs.identifier "NOT" (by decide)).append (ReadAs.mark (c := '(') (by decide)).space
        fun rest _ => apart_cons (by decide) _
    have whole := (opened.append spelled fun _ _ => trivial).then_mark (c := ')') (by decide)
    rw [List.cons_append, Pieces.chars_cons, Pieces.chars_append, Pieces.chars_words, ← List.append_assoc]
    exact .of_settled whole
  · rw [Expression.resolve, resolved]
    rfl

theorem chain (c : Connective) {f : Fragment} {rest : List Fragment}
    {e : Expression (Value × Option String)} {others : List (Expression (Value × Option String))}
    (all : ReadsAll reserved start (f :: rest) (e :: others)) :
    Reads reserved start ⟨.words "(" :: Pieces.separated s!" {c.word} " ((f :: rest).map (·.pieces))
      ++ [.words ")"], (f :: rest).flatMap (·.params)⟩ (.joined c (e :: others)) := by
  obtain ⟨lexemes, trees, spelled, parsed, resolved⟩ := all.lexed
  cases spelled with
  | @cons _ first _ later headSpelled tailSpelled =>
    cases parsed with
    | @cons _ tree _ more headParsed tailParsed =>
      refine ⟨_, _, ?_, .chain c headParsed tailParsed, Expression.resolve_joined resolved⟩
      have word : Settled s!" {c.word} ".toList [.word c.word] := by
        cases c with
        | and => exact (ReadAs.identifier "AND" (by decide)).then_space.space
        | or => exact (ReadAs.identifier "OR" (by decide)).then_space.space
      have list := separated_lexed word
        (fun _ => by cases c <;> exact apart_cons (by decide) _) headSpelled tailSpelled
      have opened : Settled ['('] [.mark '('] := ReadAs.mark (by decide)
      have whole := (opened.append list fun _ _ => trivial).then_mark (c := ')') (by decide)
      rw [List.cons_append, Pieces.chars_cons, Pieces.chars_append, Pieces.chars_words,
        ← List.append_assoc]
      exact .of_settled whole

end Reads

end NestedQuery.Sql

namespace NestedQuery.Filter

open Sql

mutual

/-- The condition that a filter is, on the columns of its fields and with values as they are cast. -/
def expression (column : String → Column) (type : String → Option String) :
    Filter → Expression (Value × Option String)
  | .compare .eq field .null => .nullTest (column field) true
  | .compare .ne field .null => .nullTest (column field) false
  | .compare c field value => .compare (column field) c (value, type field)
  | .isIn field values =>
    if values.isEmpty then .constant false
    else .isIn (column field) (values.map (·, type field))
  | .isNull field => .nullTest (column field) true
  | .isNotNull field => .nullTest (column field) false
  | .like field pattern => .like (column field) (.text pattern, none)
  | .all filters =>
    if filters.isEmpty then .constant true else .joined .and (expressions column type filters)
  | .any filters =>
    if filters.isEmpty then .constant false else .joined .or (expressions column type filters)
  | .not filter => .negation (expression column type filter)

def expressions (column : String → Column) (type : String → Option String) :
    List Filter → List (Expression (Value × Option String))
  | [] => []
  | filter :: rest => expression column type filter :: expressions column type rest

end

end NestedQuery.Filter

namespace NestedQuery.Sql

/-- The column of a field under a label. -/
def columnOf (format : Format) (label field : String) : Column :=
  ⟨label, (format.column? field).getD ""⟩

theorem fieldColumn_eq {format : Format} {label field : String} {column : Column}
    (found : fieldColumn format label field = .ok column) : column = columnOf format label field := by
  obtain ⟨stored, known, found⟩ := Result.bind_eq_ok.mp found
  obtain ⟨f, listed, rfl⟩ := Format.requireColumn_cases known
  cases found
  rw [columnOf, Format.column?, listed]
  rfl

section Predicates

variable {format : Format} {label : String}

mutual

theorem predicate_reads (connectives : ∀ c : Connective, c.word ∈ reserved)
    (castable : ∀ field, Castable reserved (format.type? field)) : ∀ (filter : Filter) (start : Nat)
    {f : Fragment}, predicate format label start filter = .ok f →
      Reads reserved start f (filter.expression (columnOf format label) format.type?)
  | .compare comparison field value, start, f, rendered => by
      rw [Sql.predicate] at rendered
      obtain ⟨column, found, rendered⟩ := Result.bind_eq_ok.mp rendered
      obtain rfl := fieldColumn_eq found
      split at rendered
      · cases rendered
        exact .nullTest _ true
      · cases rendered
        exact .nullTest _ false
      · next notEq notNe =>
          cases rendered
          rw [Filter.expression]
          · exact .compare connectives (castable field) _ comparison value
          · exact notEq
          · exact notNe
  | .isIn field values, start, f, rendered => by
      rw [Sql.predicate] at rendered
      cases values with
      | nil =>
          cases rendered
          exact .constant false
      | cons first rest =>
          obtain ⟨column, found, rendered⟩ := Result.bind_eq_ok.mp rendered
          obtain rfl := fieldColumn_eq found
          cases rendered
          exact .isIn connectives (castable field) _ first rest
  | .isNull field, start, f, rendered => by
      rw [Sql.predicate] at rendered
      obtain ⟨column, found, rendered⟩ := Result.bind_eq_ok.mp rendered
      obtain rfl := fieldColumn_eq found
      cases rendered
      exact .nullTest _ true
  | .isNotNull field, start, f, rendered => by
      rw [Sql.predicate] at rendered
      obtain ⟨column, found, rendered⟩ := Result.bind_eq_ok.mp rendered
      obtain rfl := fieldColumn_eq found
      cases rendered
      exact .nullTest _ false
  | .like field pattern, start, f, rendered => by
      rw [Sql.predicate] at rendered
      obtain ⟨column, found, rendered⟩ := Result.bind_eq_ok.mp rendered
      obtain rfl := fieldColumn_eq found
      cases rendered
      exact .like connectives _ pattern
  | .all filters, start, f, rendered => by
      rw [Sql.predicate] at rendered
      cases filters with
      | nil =>
          cases rendered
          exact .constant true
      | cons filter rest =>
          obtain ⟨parts, each, rendered⟩ := Result.bind_eq_ok.mp rendered
          have all := predicates_read connectives castable (filter :: rest) start each
          obtain ⟨first, others, rfl⟩ := predicates_cons each Bool.false_ne_true
          cases rendered
          exact .chain .and all
  | .any filters, start, f, rendered => by
      rw [Sql.predicate] at rendered
      cases filters with
      | nil =>
          cases rendered
          exact .constant false
      | cons filter rest =>
          obtain ⟨parts, each, rendered⟩ := Result.bind_eq_ok.mp rendered
          have all := predicates_read connectives castable (filter :: rest) start each
          obtain ⟨first, others, rfl⟩ := predicates_cons each Bool.false_ne_true
          cases rendered
          exact .chain .or all
  | .not filter, start, f, rendered => by
      rw [Sql.predicate] at rendered
      obtain ⟨inner, within, rendered⟩ := Result.bind_eq_ok.mp rendered
      cases rendered
      exact .negation (predicate_reads connectives castable filter start within)

theorem predicates_read (connectives : ∀ c : Connective, c.word ∈ reserved)
    (castable : ∀ field, Castable reserved (format.type? field)) : ∀ (filters : List Filter)
    (start : Nat) {parts : List Fragment}, predicates format label start filters = .ok parts →
      ReadsAll reserved start parts (Filter.expressions (columnOf format label) format.type? filters)
  | [], start, parts, rendered => by
      rw [Sql.predicates] at rendered
      cases rendered
      exact .nil
  | filter :: rest, start, parts, rendered => by
      rw [Sql.predicates] at rendered
      obtain ⟨first, head, rendered⟩ := Result.bind_eq_ok.mp rendered
      obtain ⟨others, tail, rendered⟩ := Result.bind_eq_ok.mp rendered
      cases rendered
      exact .cons (predicate_reads connectives castable filter start head)
        (predicates_read connectives castable rest (first.next start) tail)

end

end Predicates

end NestedQuery.Sql
