/- The placeholders of a statement: from left to right they are numbered from one on, one for each value
that is bound, and the text has no other dollar. -/
import NestedQuery.Proofs.Clauses
import NestedQuery.Proofs.Rendering

namespace NestedQuery.Sql

/-- The digits that follow each dollar of a text, from left to right. -/
def dollarRuns : List Char → List (List Char)
  | [] => []
  | c :: rest =>
    if c = '$' then rest.takeWhile Char.isDigit :: dollarRuns rest else dollarRuns rest

theorem dollarRuns_append {x : List Char} (clean : '$' ∉ x) (y : List Char) :
    dollarRuns (x ++ y) = dollarRuns y := by
  induction x with
  | nil => rfl
  | cons c rest ih =>
      obtain ⟨other, later⟩ := not_or.mp (List.mem_cons.not.mp clean)
      rw [List.cons_append, dollarRuns, if_neg (Ne.symm other), ih later]

/-- A run of digits ends where no digit follows. -/
theorem dollarRuns_digits {digits rest : List Char} (all : ∀ c ∈ digits, c.isDigit = true)
    (ends : ∀ c ∈ rest.head?, c.isDigit = false) :
    dollarRuns ('$' :: (digits ++ rest)) = digits :: dollarRuns rest := by
  have clean : '$' ∉ digits := by
    intro member
    exact absurd (all _ member) (by decide)
  have stops : rest.takeWhile Char.isDigit = [] := by
    cases rest with
    | nil => rfl
    | cons c later => rw [List.takeWhile_cons_of_neg (by simpa using ends c rfl)]
  rw [dollarRuns, if_pos rfl, List.takeWhile_append_of_pos all, stops, List.append_nil,
    dollarRuns_append clean]

def noDollar (s : String) : Bool := !s.toList.contains '$'

@[simp] theorem noDollar_append (s t : String) : noDollar (s ++ t) = (noDollar s && noDollar t) := by
  simp only [noDollar, String.toList_append, List.contains_append, Bool.not_or]

theorem noDollar_iff {s : String} : noDollar s = true ↔ '$' ∉ s.toList := by
  simp only [noDollar, Bool.not_eq_true', List.contains_eq_mem, decide_eq_false_iff_not]

@[simp] theorem noDollar_toString (n : Nat) : noDollar (toString n) = true := by
  rw [noDollar_iff]
  intro member
  exact absurd (isDigit_toString n _ member) (by decide)

theorem noDollar_of_isIdentifier {s : String} (plain : Text.isIdentifier s = true) :
    noDollar s = true := by
  rw [noDollar_iff]
  intro member
  unfold Text.isIdentifier at plain
  cases chars : s.toList with
  | nil =>
      rw [chars] at member
      cases member
  | cons first rest =>
      rw [chars] at plain member
      obtain ⟨start, others⟩ := Bool.and_eq_true_iff.mp plain
      rcases List.mem_cons.mp member with rfl | later
      · exact absurd start (by decide)
      · exact absurd (List.all_eq_true.mp others _ later) (by decide)

theorem isType_no_dollar (chars : List Char) :
    (Text.isTypeWords chars = true → '$' ∉ chars) ∧ (Text.isTypeRest chars = true → '$' ∉ chars) := by
  induction chars with
  | nil => exact ⟨fun _ => List.not_mem_nil, fun _ => List.not_mem_nil⟩
  | cons c rest ih =>
      constructor
      · intro words member
        rw [Text.isTypeWords] at words
        obtain ⟨start, others⟩ := Bool.and_eq_true_iff.mp words
        rcases List.mem_cons.mp member with rfl | later
        · exact absurd start (by decide)
        · exact ih.2 others later
      · intro words member
        unfold Text.isTypeRest at words
        split at words
        · next empty => cases empty
        · next brackets =>
            rw [brackets] at member
            exact absurd member (by decide)
        · next space =>
            cases space
            rcases List.mem_cons.mp member with impossible | later
            · cases impossible
            · exact ih.1 words later
        · next same =>
            cases same
            obtain ⟨start, others⟩ := Bool.and_eq_true_iff.mp words
            rcases List.mem_cons.mp member with rfl | later
            · exact absurd start (by decide)
            · exact ih.2 others later

theorem noDollar_of_isColumnType {s : String} (plain : Text.isColumnType s = true) :
    noDollar s = true :=
  noDollar_iff.mpr ((isType_no_dollar s.toList).1 plain)

namespace Piece

def index? : Piece → Option Nat
  | .placeholder n => some n
  | _ => none

theorem text_placeholder (n : Nat) : (text (.placeholder n)).toList = '$' :: (toString n).toList :=
  String.toList_append

theorem text_cast (type : String) : (text (.cast type)).toList = ':' :: ':' :: type.toList :=
  String.toList_append

/-- No dollar stands in a piece that is no placeholder, and a run of digits ends before it. -/
def isTame : Piece → Bool
  | .words text => text.toList.head?.any (!·.isDigit) && noDollar text
  | .name text => noDollar text
  | .placeholder _ => true
  | .cast type => noDollar type

@[simp] theorem isTame_words (text : String) :
    isTame (.words text) = (text.toList.head?.any (!·.isDigit) && !text.toList.contains '$') := rfl

@[simp] theorem isTame_name (text : String) : isTame (.name text) = noDollar text := rfl

@[simp] theorem isTame_placeholder (n : Nat) : isTame (.placeholder n) = true := rfl

@[simp] theorem isTame_cast (type : String) : isTame (.cast type) = noDollar type := rfl

theorem doubleQuotes_no_dollar {chars : List Char} (clean : '$' ∉ chars) :
    '$' ∉ Text.doubleQuotes chars := by
  induction chars with
  | nil => exact List.not_mem_nil
  | cons c rest ih =>
      obtain ⟨other, later⟩ := not_or.mp (List.mem_cons.not.mp clean)
      rw [Text.doubleQuotes]
      split
      · apply List.not_mem_cons_of_ne_of_not_mem (by decide)
        exact List.not_mem_cons_of_ne_of_not_mem (by decide) (ih later)
      · exact List.not_mem_cons_of_ne_of_not_mem other (ih later)

/-- A tame piece starts with no digit. -/
theorem head_of_isTame {p : Piece} (tame : p.isTame = true) :
    ∃ c rest, p.text.toList = c :: rest ∧ c.isDigit = false := by
  cases p with
  | words text =>
      obtain ⟨first, _⟩ := Bool.and_eq_true_iff.mp tame
      cases chars : text.toList with
      | nil =>
          rw [chars] at first
          cases first
      | cons c rest =>
          rw [chars] at first
          exact ⟨c, rest, chars, by simpa using first⟩
  | name text => exact ⟨'"', _, String.toList_ofList, rfl⟩
  | placeholder n => exact ⟨'$', _, text_placeholder n, rfl⟩
  | cast type => exact ⟨':', _, text_cast type, rfl⟩

theorem no_dollar_of_isTame {p : Piece} (tame : p.isTame = true) (bare : p.index? = none) :
    '$' ∉ p.text.toList := by
  cases p with
  | words text => exact noDollar_iff.mp (Bool.and_eq_true_iff.mp tame).2
  | name text =>
      have clean := doubleQuotes_no_dollar (noDollar_iff.mp tame)
      simp [Piece.text, Text.quotedName, clean]
  | placeholder n => cases bare
  | cast type =>
      have clean := noDollar_iff.mp tame
      simp [text_cast, clean]

end Piece

namespace Pieces

def placeholders (text : Pieces) : List Nat := text.filterMap Piece.index?

@[simp] theorem placeholders_nil : placeholders [] = [] := rfl

@[simp] theorem placeholders_words (words : String) (text : Pieces) :
    placeholders (.words words :: text) = placeholders text := rfl

@[simp] theorem placeholders_name (name : String) (text : Pieces) :
    placeholders (.name name :: text) = placeholders text := rfl

@[simp] theorem placeholders_placeholder (n : Nat) (text : Pieces) :
    placeholders (.placeholder n :: text) = n :: placeholders text := rfl

@[simp] theorem placeholders_append (a b : Pieces) :
    placeholders (a ++ b) = placeholders a ++ placeholders b := List.filterMap_append

def Tame (text : Pieces) : Prop := ∀ p ∈ text, p.isTame = true

@[simp] theorem tame_nil : Tame [] := nofun

@[simp] theorem tame_cons {p : Piece} {text : Pieces} :
    Tame (p :: text) ↔ p.isTame = true ∧ Tame text := List.forall_mem_cons

@[simp] theorem tame_append {a b : Pieces} : Tame (a ++ b) ↔ Tame a ∧ Tame b :=
  List.forall_mem_append

theorem text_cons_toList (p : Piece) (rest : Pieces) :
    (text (p :: rest)).toList = p.text.toList ++ (text rest).toList := by
  rw [text, List.map_cons, String.join_cons, String.toList_append]
  rfl

/-- The dollars of tame text are those of its placeholders. -/
theorem dollarRuns_text {all : Pieces} (tame : Tame all) :
    dollarRuns (text all).toList = (placeholders all).map fun n => (toString n).toList := by
  induction all with
  | nil => rfl
  | cons p rest ih =>
      obtain ⟨here, later⟩ := tame_cons.mp tame
      rw [text_cons_toList]
      cases index : p.index? with
      | none =>
          have bare : placeholders (p :: rest) = placeholders rest := List.filterMap_cons_none index
          rw [dollarRuns_append (Piece.no_dollar_of_isTame here index), ih later, bare]
      | some n =>
          obtain ⟨i, rfl⟩ : ∃ i, p = .placeholder i := by
            cases p with
            | placeholder i => exact ⟨i, rfl⟩
            | _ => cases index
          have ends : ∀ c ∈ (text rest).toList.head?, c.isDigit = false := by
            intro c first
            cases rest with
            | nil => cases first
            | cons q others =>
                obtain ⟨d, chars, starts, noDigit⟩ := Piece.head_of_isTame (tame_cons.mp later).1
                rw [text_cons_toList, starts] at first
                cases first
                exact noDigit
          rw [Piece.text_placeholder, List.cons_append, dollarRuns_digits (isDigit_toString i) ends,
            ih later]
          rfl

@[simp] theorem placeholders_column (c : Column) : placeholders c.pieces = [] := rfl

theorem tame_column {c : Column} (source : noDollar c.source = true)
    (column : noDollar c.column = true) : Tame c.pieces := by
  simp [Column.pieces, source, column]

theorem separated_cons (separator : String) (part other : Pieces) (rest : List Pieces) :
    separated separator (part :: other :: rest) =
      part ++ .words separator :: separated separator (other :: rest) := rfl

theorem placeholders_separated (separator : String) (parts : List Pieces) :
    placeholders (separated separator parts) = parts.flatMap placeholders := by
  induction parts with
  | nil => rfl
  | cons part rest ih =>
      cases rest with
      | nil => simp [separated]
      | cons other later =>
          rw [separated_cons, placeholders_append, placeholders_words, ih]
          rfl

theorem tame_separated {separator : String} (fixed : (Piece.words separator).isTame = true)
    {parts : List Pieces} (each : ∀ part ∈ parts, Tame part) : Tame (separated separator parts) := by
  induction parts with
  | nil => exact tame_nil
  | cons part rest ih =>
      obtain ⟨head, tail⟩ := List.forall_mem_cons.mp each
      cases rest with
      | nil => exact head
      | cons other later =>
          rw [separated_cons, tame_append, tame_cons]
          exact ⟨head, fixed, ih tail⟩

theorem tame_parameter {type : Option String} (plain : ∀ t, type = some t → noDollar t = true)
    (n : Nat) : Tame (parameter n type) := by
  cases type with
  | none => simp [parameter]
  | some t => simp [parameter, plain t rfl]

@[simp] theorem placeholders_parameter (n : Nat) (type : Option String) :
    placeholders (parameter n type) = [n] := by
  cases type with
  | none => rfl
  | some t => rfl

theorem placeholders_parameters (start count : Nat) (type : Option String) :
    (parameters start count type).flatMap placeholders = List.range' start count := by
  rw [parameters, List.flatMap_map, List.range'_eq_map_range]
  simp only [placeholders_parameter]
  exact List.flatMap_pure_eq_map _ _

end Pieces

open Pieces (Tame placeholders)

/-- The placeholders of a fragment are those from `start` on, one for each of its values. -/
structure Numbered (start : Nat) (f : Fragment) : Prop where
  tame : Tame f.pieces
  order : placeholders f.pieces = List.range' start f.params.length

namespace Numbered

variable {start : Nat}

theorem empty : Numbered start .empty := ⟨Pieces.tame_nil, rfl⟩

theorem append {f g : Fragment} (first : Numbered start f) (later : Numbered (f.next start) g) :
    Numbered start (f ++ g) := by
  constructor
  · exact Pieces.tame_append.mpr ⟨first.tame, later.tame⟩
  · change placeholders (f.pieces ++ g.pieces) = List.range' start (f.params ++ g.params).length
    rw [Pieces.placeholders_append, first.order, later.order, List.length_append]
    exact List.range'_append_1

/-- Filters that each follow on the one before take up one range of placeholders. -/
theorem chain {parts : List Fragment} (linked : Chain Numbered start parts) :
    (∀ text ∈ parts.map (·.pieces), Tame text) ∧
      (parts.map (·.pieces)).flatMap placeholders =
        List.range' start (parts.flatMap (·.params)).length := by
  induction linked with
  | nil => exact ⟨nofun, rfl⟩
  | cons first _ ih =>
      obtain ⟨tame, order⟩ := ih
      refine ⟨List.forall_mem_cons.mpr ⟨first.tame, tame⟩, ?_⟩
      rw [List.map_cons, List.flatMap_cons, first.order, order, List.flatMap_cons, List.length_append]
      exact List.range'_append_1

end Numbered

variable {format : Format} {label : String}

/-- A label and the columns of a format with plain names. -/
theorem tame_field (plain : format.Plain) (named : noDollar label = true) {field : Field}
    (member : field ∈ format.fields) : Tame (Column.pieces ⟨label, field.column⟩) :=
  Pieces.tame_column named (noDollar_of_isIdentifier (plain.column field member))

theorem noDollar_type (plain : format.Plain) {field : Field} (member : field ∈ format.fields) :
    ∀ t, field.type = some t → noDollar t = true :=
  fun t given => noDollar_of_isColumnType (plain.type field member t given)

theorem closed_numbered (plain : format.Plain) (named : noDollar label = true) :
    Closed format label Numbered where
  constant := by
    intro start value
    cases value with
    | true => exact ⟨by simp [Fragment.ofPieces], rfl⟩
    | false => exact ⟨by simp [Fragment.ofPieces], rfl⟩
  nullTest := by
    intro start field member isNull
    have column := tame_field plain named member
    cases isNull with
    | true =>
        refine ⟨Pieces.tame_append.mpr ⟨column, ?_⟩, rfl⟩
        exact Pieces.tame_cons.mpr ⟨rfl, Pieces.tame_nil⟩
    | false =>
        refine ⟨Pieces.tame_append.mpr ⟨column, ?_⟩, rfl⟩
        exact Pieces.tame_cons.mpr ⟨rfl, Pieces.tame_nil⟩
  compare := by
    intro start field member comparison value
    have column := tame_field plain named member
    have type := Pieces.tame_parameter (noDollar_type plain member) start
    constructor
    · refine Pieces.tame_append.mpr ⟨column, Pieces.tame_cons.mpr ⟨?_, type⟩⟩
      cases comparison <;> rfl
    · simp
  isIn := by
    intro start field member first rest
    have column := tame_field plain named member
    have list : Tame (Pieces.separated ", "
        (parameters start (first :: rest).length field.type)) := by
      refine Pieces.tame_separated rfl ?_
      intro part listed
      obtain ⟨i, _, rfl⟩ := List.mem_map.mp listed
      exact Pieces.tame_parameter (noDollar_type plain member) _
    constructor
    · simp only [Pieces.tame_append, Pieces.tame_cons, Pieces.tame_nil, and_true]
      exact ⟨⟨column, rfl, list⟩, rfl⟩
    · simp only [Pieces.placeholders_append, Pieces.placeholders_words, Pieces.placeholders_nil,
        Pieces.placeholders_column, Pieces.placeholders_separated, Pieces.placeholders_parameters,
        List.nil_append, List.append_nil]
  like := by
    intro start field member pattern
    have column := tame_field plain named member
    constructor
    · simp [column, parameter]
    · simp
  chain := by
    intro start first rest every linked
    obtain ⟨tame, order⟩ := Numbered.chain linked
    have separator : (Piece.words (if every then " AND " else " OR ")).isTame = true := by
      cases every <;> rfl
    have list := Pieces.tame_separated separator tame
    constructor
    · simp only [Pieces.tame_append, Pieces.tame_cons, Pieces.tame_nil, and_true]
      exact ⟨⟨rfl, list⟩, rfl⟩
    · simp only [Pieces.placeholders_append, Pieces.placeholders_words, Pieces.placeholders_nil,
        Pieces.placeholders_separated, order, List.append_nil]
  negation := by
    intro start inner numbered
    constructor
    · simp [numbered.tame]
    · simp [numbered.order]

/-- The names that reach the text of a statement are plain ones. -/
structure Shape.Named (s : Shape) : Prop where
  node : ∀ {id n}, s.plan.dataNode id = .ok n → n.format.Plain
  selected : ∀ {id n}, s.plan.dataNode id = .ok n → ∀ field ∈ n.selection.selected,
    field ∈ n.format.fields
  root : s.root.format.Plain
  junction : ∀ {j}, s.junction? = some j → Text.isIdentifier j.table = true ∧
    Text.isIdentifier j.near = true ∧ Text.isIdentifier j.far = true
  lateral : ∀ {lateral}, s.lateral = some lateral → lateral.node.format.Plain ∧
    ∃ field ∈ lateral.node.format.fields, lateral.key = ⟨parentLabel, field.column⟩

@[simp] theorem noDollar_label (n : DataNode) : noDollar n.label = true := noDollar_toString n.id

@[simp] theorem noDollar_junctionLabel (n : DataNode) : noDollar n.junctionLabel = true := by
  change noDollar (toString n.id ++ "_j") = true
  rw [noDollar_append, noDollar_toString]
  rfl

theorem noDollar_selectionLabel (s : Selection) {field : String}
    (plain : Text.isIdentifier field = true) : noDollar (s.label field) = true := by
  change noDollar (toString s.node ++ "." ++ field) = true
  rw [noDollar_append, noDollar_append, noDollar_toString, noDollar_of_isIdentifier plain]
  rfl

@[simp] theorem noDollar_junctionNearLabel (n : DataNode) : noDollar n.junctionNearLabel = true := by
  change noDollar (toString n.id ++ ".#local") = true
  rw [noDollar_append, noDollar_toString]
  rfl

@[simp] theorem noDollar_junctionFarLabel (n : DataNode) : noDollar n.junctionFarLabel = true := by
  change noDollar (toString n.id ++ ".#foreign") = true
  rw [noDollar_append, noDollar_toString]
  rfl

theorem noDollar_nearColumn : noDollar nearColumn = true := by decide

theorem noDollar_farColumn : noDollar farColumn = true := by decide

theorem Item.tame {i : Item} (source : noDollar i.column.source = true)
    (column : noDollar i.column.column = true) (label : noDollar i.label = true) : Tame i.pieces := by
  refine Pieces.tame_append.mpr ⟨Pieces.tame_column source column, ?_⟩
  exact Pieces.tame_cons.mpr ⟨rfl, Pieces.tame_cons.mpr ⟨label, Pieces.tame_nil⟩⟩

@[simp] theorem placeholders_item (i : Item) : placeholders i.pieces = [] := rfl

namespace Shape

variable {s : Shape} {start : Nat} {f : Fragment}

theorem Named.item (named : s.Named) {i : Item} (projects : s.Projects i) : Tame i.pieces := by
  rcases projects with ⟨id, _, n, found, field, member, rfl⟩ | ⟨j, found, ends⟩
  · have plain := named.node found
    exact Item.tame (noDollar_label n) (noDollar_of_isIdentifier (plain.column field member))
      (noDollar_selectionLabel _ (plain.name field member))
  · obtain ⟨_, near, far⟩ := named.junction found
    have root := noDollar_label s.root
    have junction := noDollar_junctionLabel s.root
    have nearLabel := noDollar_junctionNearLabel s.root
    have farLabel := noDollar_junctionFarLabel s.root
    rcases ends with ⟨_, rfl⟩ | ⟨_, rfl⟩ | ⟨_, rfl⟩ | ⟨_, rfl⟩
    · exact Item.tame root noDollar_nearColumn nearLabel
    · exact Item.tame root noDollar_farColumn farLabel
    · exact Item.tame junction (noDollar_of_isIdentifier near) nearLabel
    · exact Item.tame junction (noDollar_of_isIdentifier far) farLabel

theorem Named.source (named : s.Named) {text : Pieces} (given : s.source = .ok text) :
    Tame text ∧ placeholders text = [] := by
  have table := noDollar_of_isIdentifier named.root.table
  rcases source_cases given with ⟨_, rfl⟩ | ⟨j, found, field, member, rfl⟩
  · exact ⟨by simp [table], rfl⟩
  · obtain ⟨junction, _, far⟩ := named.junction found
    have own := tame_field named.root (noDollar_label s.root) member
    have other : Tame (Column.pieces ⟨s.root.junctionLabel, j.far⟩) :=
      Pieces.tame_column (noDollar_junctionLabel s.root) (noDollar_of_isIdentifier far)
    constructor
    · simp [table, noDollar_of_isIdentifier junction, own, other]
    · rfl

end Shape

namespace Clause

variable {s : Shape} {start : Nat} {f : Fragment}

theorem numbered_ofPieces {text : Pieces} (tame : Tame text) (bare : placeholders text = []) :
    Numbered start (.ofPieces text) := ⟨tame, bare⟩

theorem lateralColumns_tame (named : s.Named) {columns : List Pieces} {link : Column}
    (rendered : lateralColumns s = .ok (columns, link)) :
    (∀ text ∈ columns, Tame text ∧ placeholders text = []) ∧ Tame link.pieces := by
  have every : Tame (everyColumn s.root.label) ∧ placeholders (everyColumn s.root.label) = [] :=
    ⟨by simp [everyColumn], rfl⟩
  rcases lateralColumns_cases rendered with
    ⟨_, rfl, field, member, rfl⟩ | ⟨j, found, rfl, rfl⟩
  · constructor
    · intro text listed
      exact List.mem_singleton.mp listed ▸ every
    · exact tame_field named.root (noDollar_label s.root) member
  · obtain ⟨_, near, far⟩ := named.junction found
    have label := noDollar_junctionLabel s.root
    have nearTame := noDollar_of_isIdentifier near
    refine ⟨List.forall_mem_cons.mpr ⟨every, List.forall_mem_cons.mpr ⟨?_, ?_⟩⟩, ?_⟩
    · exact ⟨Item.tame label nearTame noDollar_nearColumn, rfl⟩
    · intro text listed
      rw [List.mem_singleton.mp listed]
      exact ⟨Item.tame label (noDollar_of_isIdentifier far) noDollar_farColumn, rfl⟩
    · exact Pieces.tame_column label nearTame

/-- Parts without placeholders are tame together, and without placeholders. -/
theorem separated_tame {parts : List Pieces}
    (each : ∀ text ∈ parts, Tame text ∧ placeholders text = []) :
    Tame (Pieces.separated ", " parts) ∧ placeholders (Pieces.separated ", " parts) = [] := by
  constructor
  · exact Pieces.tame_separated rfl fun text listed => (each text listed).1
  · rw [Pieces.placeholders_separated]
    exact List.flatMap_eq_nil_iff.mpr fun text listed => (each text listed).2

theorem head_numbered (named : s.Named) (rendered : head s = .ok f) : Numbered start f := by
  obtain ⟨items, projects, source, given, shape⟩ := head_cases rendered
  obtain ⟨sourceTame, sourceBare⟩ := named.source given
  obtain ⟨itemsTame, itemsBare⟩ : Tame (Pieces.separated ", " (items.map Item.pieces)) ∧
      placeholders (Pieces.separated ", " (items.map Item.pieces)) = [] := by
    refine separated_tame ?_
    intro text listed
    obtain ⟨i, member, rfl⟩ := List.mem_map.mp listed
    exact ⟨named.item (projects i member), rfl⟩
  rcases shape with ⟨_, rfl⟩ | ⟨lateral, found, columns, link, inner, rfl⟩
  · apply numbered_ofPieces
    · simp [itemsTame, sourceTame]
    · simp [itemsBare, sourceBare]
  · obtain ⟨plain, field, member, key⟩ := named.lateral found
    obtain ⟨columnsEach, linkTame⟩ := lateralColumns_tame named inner
    obtain ⟨columnsTame, columnsBare⟩ := separated_tame columnsEach
    have table := noDollar_of_isIdentifier plain.table
    have parent : noDollar parentLabel = true := by decide
    have keyTame : Tame lateral.key.pieces := key ▸ tame_field plain parent member
    apply numbered_ofPieces
    · simp [itemsTame, sourceTame, columnsTame, linkTame, keyTame, table, parent]
    · simp [itemsBare, sourceBare, columnsBare]

theorem join_numbered (named : s.Named) {n : DataNode} (plain : n.format.Plain)
    (rendered : join s n start = .ok f) : Numbered start f := by
  obtain ⟨id, parent, own, key, _, above, ⟨field, member, ownEq⟩, ⟨other, selected, keyEq⟩, shape⟩ :=
    join_cases rendered
  have table := noDollar_of_isIdentifier plain.table
  have label := noDollar_label n
  have ownTame : Tame own.pieces := ownEq ▸ tame_field plain label member
  have keyTame : Tame key.pieces := keyEq ▸ tame_field (named.node above)
    (noDollar_toString parent.selection.node) (named.selected above other selected)
  have text : Tame (joined n own key) := by
    simp [joined, table, label, ownTame, keyTame]
  have bare : placeholders (joined n own key) = [] := rfl
  rcases shape with rfl | ⟨filter, inner, within, rfl⟩
  · exact numbered_ofPieces text bare
  · have numbered := (closed_numbered plain label).predicate filter start within
    constructor
    · simp [text, numbered.tame]
    · simp [bare, numbered.order]

theorem joinsOf_numbered (named : s.Named) {ids : List Nat}
    (rendered : joinsOf s start ids = .ok f) : Numbered start f := by
  induction ids generalizing start f with
  | nil =>
      cases rendered
      exact .empty
  | cons id rest ih =>
      obtain ⟨n, first, others, found, head, tail, rfl⟩ := joinsOf_cases rendered
      exact (join_numbered named (named.node found) head).append (ih tail)

theorem condition_numbered (named : s.Named) {lead : String}
    (fixed : (Piece.words (lead ++ " (")).isTame = true) {filter : Option Filter}
    (rendered : condition s lead filter start = .ok f) : Numbered start f := by
  rcases condition_cases rendered with ⟨_, rfl⟩ | ⟨given, inner, _, within, rfl⟩
  · exact .empty
  · have numbered := (closed_numbered named.root (noDollar_label s.root)).predicate given start within
    constructor
    · simp only [Pieces.tame_append, Pieces.tame_cons, fixed, numbered.tame]
      simp
    · simp [numbered.order]

theorem linkedKey_numbered (named : s.Named) {lead : String}
    (fixed : (Piece.words (lead ++ " ")).isTame = true) {batch : List Value}
    (rendered : linkedKey s lead batch start = .ok f) : Numbered start f := by
  obtain ⟨column, found, shape⟩ := linkedKey_cases rendered
  have tame : Tame column.pieces := by
    rcases Shape.linkedColumn_cases found with
      ⟨lateral, known, rfl⟩ | ⟨_, j, known, rfl⟩ | ⟨_, field, member, rfl⟩
    · obtain ⟨plain, field, member, key⟩ := named.lateral known
      exact key ▸ tame_field plain (by decide) member
    · exact Pieces.tame_column (noDollar_junctionLabel s.root)
        (noDollar_of_isIdentifier (named.junction known).2.1)
    · exact tame_field named.root (noDollar_label s.root) member
  have type : ∀ t, s.linkedType = some t → noDollar t = true := by
    intro t given
    obtain ⟨format, own, field, member, declared⟩ := Shape.linkedType_cases given
    rcases own with rfl | ⟨id, n, known, rfl⟩
    · exact noDollar_type named.root member t declared
    · exact noDollar_type (named.node known) member t declared
  rcases shape with ⟨one, rfl⟩ | ⟨first, rest, rfl⟩
  · constructor
    · simp only [Pieces.tame_append, Pieces.tame_cons, fixed, tame, Pieces.tame_parameter type start]
      simp
    · simp
  · have list : Tame (Pieces.separated "," ((parameters start (first :: rest).length s.linkedType).map
        fun p => .words "(" :: p ++ [.words ")"])) := by
      refine Pieces.tame_separated (by decide) ?_
      intro row listed
      obtain ⟨p, member, rfl⟩ := List.mem_map.mp listed
      obtain ⟨i, _, rfl⟩ := List.mem_map.mp member
      simp [Pieces.tame_parameter type]
    have order : ((parameters start (first :: rest).length s.linkedType).map
        fun p => Piece.words "(" :: p ++ [.words ")"]).flatMap placeholders =
          List.range' start (first :: rest).length := by
      rw [List.flatMap_map, ← Pieces.placeholders_parameters start _ s.linkedType]
      simp
    constructor
    · simp only [Pieces.tame_append, Pieces.tame_cons, fixed, tame, list]
      simp
    · simp only [Pieces.placeholders_append, Pieces.placeholders_words, Pieces.placeholders_nil,
        Pieces.placeholders_column, Pieces.placeholders_separated, order, List.nil_append,
        List.append_nil]

theorem orderBy_numbered (named : s.Named) {sort : List SortKey}
    (rendered : orderBy s sort = .ok f) : Numbered start f := by
  obtain ⟨keys, keyed, rfl⟩ := orderBy_cases rendered
  split
  · exact .empty
  · obtain ⟨tame, bare⟩ : Tame (Pieces.separated ", " (keys.map OrderKey.pieces)) ∧
        placeholders (Pieces.separated ", " (keys.map OrderKey.pieces)) = [] := by
      refine separated_tame ?_
      intro text listed
      obtain ⟨k, member, rfl⟩ := List.mem_map.mp listed
      obtain ⟨field, inside, column⟩ := keyed k member
      refine ⟨Pieces.tame_append.mpr ⟨?_, Pieces.tame_cons.mpr ⟨?_, Pieces.tame_nil⟩⟩, rfl⟩
      · exact column ▸ tame_field named.root (noDollar_label s.root) inside
      · cases k.direction <;> rfl
    apply numbered_ofPieces
    · simp [tame]
    · simp [bare]

theorem pagination_numbered (query : Query) : Numbered start (pagination query start) := by
  unfold pagination
  split
  · exact .empty
  · exact ⟨by simp, rfl⟩

theorem lateralClose_numbered : Numbered start (lateralClose s) :=
  numbered_ofPieces (by simp) rfl

end Clause

theorem Segment.numbered {shape : Shape} (named : shape.Named) {query : Query} {batch : List Value}
    {segment : Segment} {start : Nat} {f : Fragment}
    (rendered : segment.render shape query batch start = .ok f) : Numbered start f := by
  cases segment with
  | head => exact Clause.head_numbered named rendered
  | joins => exact Clause.joinsOf_numbered named rendered
  | filter =>
      refine Clause.condition_numbered named ?_ rendered
      split <;> rfl
  | linkedKey =>
      refine Clause.linkedKey_numbered named ?_ rendered
      split <;> rfl
  | orderBy => exact Clause.orderBy_numbered named rendered
  | pagination =>
      cases rendered
      exact Clause.pagination_numbered query
  | lateralClose =>
      cases rendered
      exact Clause.lateralClose_numbered

/-- Segments one after another are numbered through if each is numbered from its own start on. -/
theorem renderAll_numbered {render : Segment → Nat → Result Fragment}
    (each : ∀ segment start f, render segment start = .ok f → Numbered start f)
    {segments : List Segment} {start : Nat} {f : Fragment}
    (rendered : renderAll render start segments = .ok f) : Numbered start f := by
  induction segments generalizing start f with
  | nil =>
      cases rendered
      exact .empty
  | cons segment rest ih =>
      obtain ⟨first, others, head, tail, rfl⟩ := renderAll_cases rendered
      exact (each segment start first head).append (ih tail)

section Plans

variable {s : Schema} {p : Plan} {plural : Bool} {request : Request} {k : Nat}

theorem Shape.named_of_ofPlan (valid : p.Over s plural request) (sound : s.Sound) {shape : Shape}
    (shaped : Shape.ofPlan p k = .ok shape) : shape.Named := by
  obtain ⟨rfl, _, root, above⟩ := Shape.ofPlan_cases shaped
  have plain : ∀ {id n}, shape.plan.dataNode id = .ok n → n.format.Plain := by
    intro id n found
    exact Format.check_plain ((valid.registered (Plan.getElem?_of_dataNode found)).check sound)
  refine ⟨plain, ?_, plain root, ?_, ?_⟩
  · intro id n found
    exact (valid.planned (Plan.getElem?_of_dataNode found)).selection_own.2
  · intro j found
    exact (Shape.fits_of_ofPlan valid sound shaped).junction_names found
  · intro lateral found
    obtain ⟨⟨id, known⟩, key⟩ := Shape.lateralParent_cases (found ▸ above)
    exact ⟨plain known, key⟩

theorem Statement.anew_numbered (valid : p.Over s plural request) (sound : s.Sound)
    {rootQuery : Query} {batch : List Value} {st : Statement}
    (rendered : Statement.anew p k rootQuery batch = .ok st) :
    Tame st.pieces ∧ placeholders st.pieces = List.range' 1 st.params.length := by
  obtain ⟨shape, shaped, rendered⟩ := Result.bind_eq_ok.mp rendered
  obtain ⟨fragment, all, rendered⟩ := Result.bind_eq_ok.mp rendered
  cases rendered
  have named := Shape.named_of_ofPlan valid sound shaped
  have numbered : Numbered 1 fragment :=
    renderAll_numbered (fun _ _ _ given => Segment.numbered named given) all
  exact ⟨numbered.tame, numbered.order⟩

/-- After any calls the text of a statement has the placeholders from 1 on, in this order and each
once, one for every parameter, and no other dollar. -/
theorem Memo.dollarRuns_after (declared : s.Declared) {format : String}
    (built : Plan.build s.catalog format plural request = .ok p) {m : Memo}
    (fresh : Memo.ofPlan p k = .ok m) (calls : List Memo.Call) {st : Statement}
    (given : (m.after calls).statement.1 = .ok st) :
    dollarRuns st.text.toList =
      (List.range' 1 st.params.length).map fun n => (toString n).toList := by
  rw [((Memo.coherent_ofPlan fresh).after calls).statement.1] at given
  obtain ⟨tame, order⟩ :=
    Statement.anew_numbered (Plan.build_over declared built) declared.sound given
  rw [Statement.text, Pieces.dollarRuns_text tame, order]

/-- A page of articles for each of two users: the size and the offset of the page come first, then the
two users. -/
theorem Memo.dollarRuns_after_firstArticles : ∃ plan m st,
    Plan.build Schema.blog.catalog "user" true firstArticles = .ok plan ∧
      Memo.ofPlan plan 1 = .ok m ∧
      (m.after [.setBatch [.int 1, .int 2]]).statement.1 = .ok st ∧
      dollarRuns st.text.toList = [['1'], ['2'], ['3'], ['4']] := by
  have some : ∃ plan m st, Plan.build Schema.blog.catalog "user" true firstArticles = .ok plan ∧
      Memo.ofPlan plan 1 = .ok m ∧
      (m.after [.setBatch [.int 1, .int 2]]).statement.1 = .ok st ∧ st.params.length = 4 :=
    ⟨_, _, _, rfl, rfl, rfl, rfl⟩
  obtain ⟨plan, m, st, built, fresh, given, count⟩ := some
  refine ⟨plan, m, st, built, fresh, given, ?_⟩
  rw [Memo.dollarRuns_after Schema.blog_declared built fresh _ given, count]
  decide

end Plans

end NestedQuery.Sql
