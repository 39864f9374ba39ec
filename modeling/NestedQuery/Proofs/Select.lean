/- The form of a statement: a tree of conditions, sources and selections, how it is written, and when
each of its columns belongs to a source that is in scope. -/
import NestedQuery.Proofs.Clauses

namespace NestedQuery.Sql

/-- What text is read as: quoted names, placeholders and casts are taken whole, words letter by
letter. -/
inductive Token where
  | letter (c : Char)
  | name (text : String)
  | placeholder (index : Nat)
  | cast (type : String)
  deriving DecidableEq, Repr

def Token.chars : Token → List Char
  | .letter c => [c]
  | .name text => (Text.quotedName text).toList
  | .placeholder n => (Piece.text (.placeholder n)).toList
  | .cast type => (Piece.text (.cast type)).toList

def Piece.tokens : Piece → List Token
  | .words text => text.toList.map .letter
  | .name text => [.name text]
  | .placeholder n => [.placeholder n]
  | .cast type => [.cast type]

namespace Pieces

def tokens (text : Pieces) : List Token := text.flatMap Piece.tokens

@[simp] theorem tokens_nil : tokens [] = [] := rfl

@[simp] theorem tokens_words (words : String) (text : Pieces) :
    tokens (.words words :: text) = words.toList.map .letter ++ tokens text := rfl

@[simp] theorem tokens_name (name : String) (text : Pieces) :
    tokens (.name name :: text) = .name name :: tokens text := rfl

@[simp] theorem tokens_placeholder (n : Nat) (text : Pieces) :
    tokens (.placeholder n :: text) = .placeholder n :: tokens text := rfl

@[simp] theorem tokens_append (a b : Pieces) : tokens (a ++ b) = tokens a ++ tokens b :=
  List.flatMap_append

theorem chars_piece (p : Piece) : p.tokens.flatMap Token.chars = p.text.toList := by
  cases p with
  | words text =>
      rw [Piece.tokens, List.flatMap_map]
      exact List.flatMap_pure_eq_map id _ |>.trans (List.map_id _)
  | name text => exact List.append_nil _
  | placeholder n => exact List.append_nil _
  | cast type => exact List.append_nil _

theorem chars_tokens (text : Pieces) :
    (Pieces.text text).toList = (tokens text).flatMap Token.chars := by
  induction text with
  | nil => rfl
  | cons p rest ih =>
      have tokens : tokens (p :: rest) = p.tokens ++ tokens rest := rfl
      rw [Pieces.text, List.map_cons, String.join_cons, String.toList_append, tokens,
        List.flatMap_append, chars_piece, ← ih]
      rfl

/-- Text that is read the same way is the same text. -/
theorem text_eq_of_tokens {a b : Pieces} (same : tokens a = tokens b) : text a = text b := by
  rw [← String.toList_inj, chars_tokens, chars_tokens, same]

theorem separated_eq (separator : String) (part : Pieces) (rest : List Pieces) :
    separated separator (part :: rest) = part ++ rest.flatMap (.words separator :: ·) := by
  induction rest generalizing part with
  | nil => exact (List.append_nil part).symm
  | cons other later ih =>
      rw [separated, ih, List.flatMap_cons]
      · rfl
      · exact List.cons_ne_nil other later

end Pieces

/-- A bound value in a condition: its placeholder, and the type that it is cast to. -/
structure Operand where
  index : Nat
  type : Option String
  deriving DecidableEq, Repr

def Operand.pieces (o : Operand) : Pieces := parameter o.index o.type

/-- Conditions on columns. A list of alternatives and a chain have at least one member. -/
inductive Condition where
  | constant (value : Bool)
  | nullTest (column : Column) (isNull : Bool)
  | compare (column : Column) (comparison : Comparison) (operand : Operand)
  | isIn (column : Column) (first : Operand) (rest : List Operand)
  | isAny (column : Column) (first : Operand) (rest : List Operand)
  | like (column : Column) (operand : Operand)
  | matched (left right : Column)
  | chain (every : Bool) (first : Condition) (rest : List Condition)
  | negation (inner : Condition)
  | enclosed (inner : Condition)
  deriving Repr

namespace Condition

mutual

def pieces : Condition → Pieces
  | .constant value => [.words (if value then "TRUE" else "FALSE")]
  | .nullTest column isNull =>
    column.pieces ++ [.words (if isNull then " IS NULL" else " IS NOT NULL")]
  | .compare column comparison operand =>
    column.pieces ++ .words s!" {Comparison.sign comparison} " :: operand.pieces
  | .isIn column first rest =>
    column.pieces ++ .words " IN (" :: Pieces.separated ", " ((first :: rest).map Operand.pieces)
      ++ [.words ")"]
  | .isAny column first rest =>
    column.pieces ++ .words " = ANY (VALUES "
      :: Pieces.separated "," ((first :: rest).map fun o => .words "(" :: o.pieces ++ [.words ")"])
      ++ [.words ")"]
  | .like column operand => column.pieces ++ .words " LIKE " :: operand.pieces
  | .matched left right => left.pieces ++ .words " = " :: right.pieces
  | .chain every first rest =>
    .words "(" :: pieces first ++ following (if every then " AND " else " OR ") rest ++ [.words ")"]
  | .negation inner => .words "NOT (" :: pieces inner ++ [.words ")"]
  | .enclosed inner => .words "(" :: pieces inner ++ [.words ")"]

/-- Further conditions, each after a separator. -/
def following (separator : String) : List Condition → Pieces
  | [] => []
  | condition :: rest => .words separator :: pieces condition ++ following separator rest

end

mutual

/-- The columns that a condition refers to. -/
def columns : Condition → List Column
  | .constant _ => []
  | .nullTest column _ => [column]
  | .compare column _ _ => [column]
  | .isIn column _ _ => [column]
  | .isAny column _ _ => [column]
  | .like column _ => [column]
  | .matched left right => [left, right]
  | .chain _ first rest => columns first ++ columnsOfAll rest
  | .negation inner => columns inner
  | .enclosed inner => columns inner

def columnsOfAll : List Condition → List Column
  | [] => []
  | condition :: rest => columns condition ++ columnsOfAll rest

end

theorem following_eq (separator : String) (conditions : List Condition) :
    following separator conditions =
      (conditions.map pieces).flatMap (.words separator :: ·) := by
  induction conditions with
  | nil => rfl
  | cons condition rest ih => rw [following, ih, List.map_cons, List.flatMap_cons]

theorem mem_columnsOfAll {conditions : List Condition} {column : Column}
    (member : column ∈ columnsOfAll conditions) : ∃ c ∈ conditions, column ∈ c.columns := by
  induction conditions with
  | nil => cases member
  | cons condition rest ih =>
      rw [columnsOfAll] at member
      rcases List.mem_append.mp member with here | later
      · exact ⟨condition, List.mem_cons_self .., here⟩
      · obtain ⟨c, inside, found⟩ := ih later
        exact ⟨c, List.mem_cons_of_mem _ inside, found⟩

/-- The first condition after a word that leads it, each further one after `AND`. -/
def clause (lead : String) : List Condition → Pieces
  | [] => []
  | first :: rest => .words (lead ++ " ") :: first.pieces ++ clause " AND" rest

theorem clause_append (lead : String) (first later : List Condition) :
    clause lead (first ++ later) =
      clause lead first ++ clause (if first.isEmpty then lead else " AND") later := by
  induction first generalizing lead with
  | nil => rfl
  | cons condition rest ih =>
      rw [List.cons_append, clause, clause, ih, List.append_assoc]
      cases rest with
      | nil => rfl
      | cons other more => rfl

end Condition

/-- What is selected: a column under a label, or all columns of a source. -/
inductive Selected where
  | item (i : Item)
  | every (source : String)
  deriving DecidableEq, Repr

namespace Selected

def pieces : Selected → Pieces
  | .item i => i.pieces
  | .every source => everyColumn source

def source : Selected → String
  | .item i => i.column.source
  | .every source => source

end Selected

inductive JoinKind where
  | inner
  | left
  deriving DecidableEq, Repr

def JoinKind.words : JoinKind → String
  | .inner => " JOIN "
  | .left => " LEFT JOIN "

mutual

/-- A selection from sources, with the conditions that all must hold, an order, and the placeholders of
a limit and an offset. -/
inductive Select where
  | mk (selected : List Selected) (sources : Sources) (conditions : List Condition)
    (order : List OrderKey) (window : Option (Nat × Nat))

/-- A table, and what is joined to it under at least one condition. A lateral subquery is a selection
of its own for each row of the sources before it. -/
inductive Sources where
  | table (name label : String)
  | join (before : Sources) (kind : JoinKind) (name label : String) (on : Condition)
    (more : List Condition)
  | lateral (before : Sources) (sub : Select) (label : String)

end

def orderClause (keys : List OrderKey) : Pieces :=
  if keys.isEmpty then [] else .words " ORDER BY " :: Pieces.separated ", " (keys.map OrderKey.pieces)

def windowClause : Option (Nat × Nat) → Pieces
  | none => []
  | some (limit, offset) =>
    [.words " LIMIT ", .placeholder limit, .words " OFFSET ", .placeholder offset]

mutual

def Select.pieces : Select → Pieces
  | ⟨selected, sources, conditions, order, window⟩ =>
    .words "SELECT " :: Pieces.separated ", " (selected.map Selected.pieces)
      ++ .words " FROM " :: sources.pieces
      ++ Condition.clause " WHERE" conditions ++ orderClause order ++ windowClause window

def Sources.pieces : Sources → Pieces
  | .table name label => [.name name, .words " AS ", .name label]
  | .join before kind name label on more =>
    before.pieces ++ [.words kind.words, .name name, .words " AS ", .name label]
      ++ Condition.clause " ON" (on :: more)
  | .lateral before sub label =>
    before.pieces ++ .words " JOIN LATERAL (" :: sub.pieces
      ++ [.words ") AS ", .name label, .words " ON true"]

end

/-- The labels under which sources are known, in their order. -/
def Sources.labels : Sources → List String
  | .table _ label => [label]
  | .join before _ _ label _ _ => before.labels ++ [label]
  | .lateral before _ label => before.labels ++ [label]

mutual

/-- A selection in whose surroundings some labels are known: no label is known twice, and each column
belongs to a known one. -/
def Select.Scoped (outer : List String) : Select → Prop
  | ⟨selected, sources, conditions, order, _⟩ =>
    (sources.labels ++ outer).Nodup ∧ sources.Scoped outer ∧
      (∀ x ∈ selected, x.source ∈ sources.labels ++ outer) ∧
      (∀ c ∈ conditions, ∀ column ∈ c.columns, column.source ∈ sources.labels ++ outer) ∧
      ∀ key ∈ order, key.column.source ∈ sources.labels ++ outer

/-- What is joined is compared with one source before it, and a lateral subquery may refer to all
sources before it. -/
def Sources.Scoped (outer : List String) : Sources → Prop
  | .table _ _ => True
  | .join before _ _ label on more => before.Scoped outer ∧ ∃ earlier ∈ before.labels,
    ∀ c ∈ on :: more, ∀ column ∈ c.columns, column.source = label ∨ column.source = earlier
  | .lateral before sub _ => before.Scoped outer ∧ sub.Scoped (before.labels ++ outer)

end

/-- How many parentheses are open after a token, if it closes none that is not open. -/
def Token.openAfter (depth : Nat) : Token → Option Nat
  | .letter '(' => some (depth + 1)
  | .letter ')' => if depth = 0 then none else some (depth - 1)
  | _ => some depth

def openAfter (depth : Nat) (text : List Token) : Option Nat := text.foldlM Token.openAfter depth

/-- Every parenthesis is closed, and none before it is opened. -/
def Balanced (text : List Token) : Prop := openAfter 0 text = some 0

theorem openAfter_append (depth : Nat) (a b : List Token) :
    openAfter depth (a ++ b) = (openAfter depth a).bind (openAfter · b) := List.foldlM_append

namespace Pieces

/-- Text after which as many parentheses are open as before, however many these are. -/
def Neutral (text : Pieces) : Prop := ∀ depth, openAfter depth text.tokens = some depth

def Opens (words : String) : Prop := ∀ depth, openAfter depth (tokens [.words words]) = some (depth + 1)

def Closes (text : Pieces) : Prop := ∀ depth, openAfter (depth + 1) text.tokens = some depth

namespace Neutral

theorem nil : Neutral [] := fun _ => rfl

theorem append {a b : Pieces} (first : Neutral a) (later : Neutral b) : Neutral (a ++ b) := by
  intro depth
  rw [tokens_append, openAfter_append, first, Option.bind_some, later]

theorem cons {p : Piece} {text : Pieces} (first : Neutral [p]) (later : Neutral text) :
    Neutral (p :: text) := first.append later

theorem name (name : String) {text : Pieces} (later : Neutral text) : Neutral (.name name :: text) :=
  cons (fun _ => rfl) later

theorem placeholder (n : Nat) {text : Pieces} (later : Neutral text) :
    Neutral (.placeholder n :: text) :=
  cons (fun _ => rfl) later

theorem column (c : Column) : Neutral c.pieces := .name _ (.cons (fun _ => rfl) (.name _ .nil))

theorem parameter (n : Nat) (type : Option String) : Neutral (parameter n type) := by
  cases type with
  | none => exact .placeholder n .nil
  | some t => exact .placeholder n (.cons (fun _ => rfl) .nil)

theorem enclosed {words : String} {text close : Pieces} (opens : Opens words) (inner : Neutral text)
    (closes : Closes close) : Neutral (.words words :: text ++ close) := by
  intro depth
  have split : tokens (.words words :: text ++ close) =
      tokens [.words words] ++ (text.tokens ++ close.tokens) := by
    simp
  rw [split, openAfter_append, opens, Option.bind_some, openAfter_append, inner, Option.bind_some,
    closes]

theorem flatMap_words {separator : String} (words : Neutral [.words separator]) {parts : List Pieces}
    (each : ∀ part ∈ parts, Neutral part) : Neutral (parts.flatMap (.words separator :: ·)) := by
  induction parts with
  | nil => exact .nil
  | cons part rest ih =>
      obtain ⟨head, tail⟩ := List.forall_mem_cons.mp each
      exact (cons words head).append (ih tail)

theorem separated {separator : String} (words : Neutral [.words separator]) {parts : List Pieces}
    (each : ∀ part ∈ parts, Neutral part) : Neutral (separated separator parts) := by
  cases parts with
  | nil => exact .nil
  | cons part rest =>
      obtain ⟨head, tail⟩ := List.forall_mem_cons.mp each
      rw [separated_eq]
      exact head.append (flatMap_words words tail)

end Neutral

end Pieces

open Pieces (Neutral)

namespace Condition

mutual

theorem neutral : ∀ c : Condition, Neutral c.pieces
  | .constant value => by
      cases value with
      | true => exact fun _ => rfl
      | false => exact fun _ => rfl
  | .nullTest column isNull => by
      refine (Neutral.column column).append ?_
      cases isNull with
      | true => exact fun _ => rfl
      | false => exact fun _ => rfl
  | .compare column comparison operand => by
      refine (Neutral.column column).append (.cons ?_ (.parameter operand.index operand.type))
      cases comparison <;> exact fun _ => rfl
  | .isIn column first rest => by
      have list : Neutral (Pieces.separated ", " ((first :: rest).map Operand.pieces)) := by
        refine .separated (fun _ => rfl) ?_
        intro part listed
        obtain ⟨o, _, rfl⟩ := List.mem_map.mp listed
        exact .parameter o.index o.type
      rw [pieces, List.append_assoc]
      exact (Neutral.column column).append (.enclosed (fun _ => rfl) list (fun _ => rfl))
  | .isAny column first rest => by
      have list : Neutral (Pieces.separated ","
          ((first :: rest).map fun o => .words "(" :: o.pieces ++ [.words ")"])) := by
        refine .separated (fun _ => rfl) ?_
        intro part listed
        obtain ⟨o, _, rfl⟩ := List.mem_map.mp listed
        exact .enclosed (fun _ => rfl) (.parameter o.index o.type) (fun _ => rfl)
      rw [pieces, List.append_assoc]
      exact (Neutral.column column).append (.enclosed (fun _ => rfl) list (fun _ => rfl))
  | .like column operand =>
      (Neutral.column column).append
        (.cons (fun _ => rfl) (.parameter operand.index operand.type))
  | .matched left right =>
      (Neutral.column left).append (.cons (fun _ => rfl) (.column right))
  | .chain every first rest => by
      have separator : Neutral [.words (if every then " AND " else " OR ")] := by
        cases every <;> exact fun _ => rfl
      rw [pieces]
      exact .enclosed (fun _ => rfl) ((neutral first).append (neutral_following separator rest))
        (fun _ => rfl)
  | .negation inner => .enclosed (fun _ => rfl) (neutral inner) (fun _ => rfl)
  | .enclosed inner => .enclosed (fun _ => rfl) (neutral inner) (fun _ => rfl)

theorem neutral_following {separator : String} (words : Neutral [.words separator]) :
    ∀ conditions : List Condition, Neutral (following separator conditions)
  | [] => .nil
  | condition :: rest =>
      (Neutral.cons words (neutral condition)).append (neutral_following words rest)

end

theorem neutral_clause {lead : String} (words : Neutral [.words (lead ++ " ")])
    (conditions : List Condition) : Neutral (clause lead conditions) := by
  induction conditions generalizing lead with
  | nil => exact .nil
  | cons condition rest ih =>
      rw [clause]
      refine (Neutral.cons words (neutral condition)).append (ih ?_)
      exact fun _ => rfl

end Condition

theorem Selected.neutral (x : Selected) : Neutral x.pieces := by
  cases x with
  | item i =>
      exact (Neutral.column i.column).append (.cons (fun _ => rfl) (.name i.label .nil))
  | every source => exact .name source (.cons (fun _ => rfl) .nil)

theorem neutral_orderClause (keys : List OrderKey) : Neutral (orderClause keys) := by
  unfold orderClause
  split
  · exact .nil
  · refine .cons (fun _ => rfl) (.separated (fun _ => rfl) ?_)
    intro part listed
    obtain ⟨k, _, rfl⟩ := List.mem_map.mp listed
    refine (Neutral.column k.column).append ?_
    cases k.direction <;> exact fun _ => rfl

theorem neutral_windowClause (window : Option (Nat × Nat)) : Neutral (windowClause window) := by
  cases window with
  | none => exact .nil
  | some w =>
      exact .cons (fun _ => rfl) (.placeholder w.1 (.cons (fun _ => rfl) (.placeholder w.2 .nil)))

mutual

theorem Select.neutral : ∀ s : Select, Neutral s.pieces
  | ⟨selected, sources, conditions, order, window⟩ => by
      have columns : Neutral (Pieces.separated ", " (selected.map Selected.pieces)) := by
        refine .separated (fun _ => rfl) ?_
        intro part listed
        obtain ⟨x, _, rfl⟩ := List.mem_map.mp listed
        exact x.neutral
      rw [Select.pieces]
      refine .append (.append (.append (.append (.cons (fun _ => rfl) columns)
        (.cons (fun _ => rfl) sources.neutral)) ?_) (neutral_orderClause order))
        (neutral_windowClause window)
      exact Condition.neutral_clause (fun _ => rfl) conditions

theorem Sources.neutral : ∀ s : Sources, Neutral s.pieces
  | .table name label => .name name (.cons (fun _ => rfl) (.name label .nil))
  | .join before kind name label on more => by
      rw [Sources.pieces]
      refine .append (.append before.neutral (.cons ?_ ?_)) ?_
      · cases kind <;> exact fun _ => rfl
      · exact .name name (.cons (fun _ => rfl) (.name label .nil))
      · exact Condition.neutral_clause (fun _ => rfl) (on :: more)
  | .lateral before sub label => by
      rw [Sources.pieces, List.append_assoc]
      exact before.neutral.append (.enclosed (fun _ => rfl) sub.neutral (fun _ => rfl))

end

/-- In every selection the parentheses are balanced, those of its subqueries included. -/
theorem Select.balanced (s : Select) : Balanced s.pieces.tokens := s.neutral 0

end NestedQuery.Sql
