/- How far the type of a cast goes: the text of a test is read as this one test exactly if no word of the
declared type is one that conditions are written with, and else as a chain of conditions if at all. -/
import NestedQuery.Proofs.Meaning

namespace NestedQuery.Sql

/-- The words that conditions are written with. -/
def reservedWords : List String := operatorWords ++ ["TRUE", "FALSE"]

/-- A type none of whose words is one that conditions are written with. -/
def Unreserved (type : String) : Prop := ∀ w ∈ typeWords type, upper w ∉ reservedWords

instance (type : String) : Decidable (Unreserved type) :=
  inferInstanceAs (Decidable (∀ w ∈ typeWords type, upper w ∉ reservedWords))

namespace Expression

def IsChain {α : Type} (e : Expression α) : Prop := ∃ c parts, e = .chain c parts

theorem isChain_joined {α : Type} (c : Connective) {parts : List (Expression α)}
    (several : 2 ≤ parts.length) : (joined c parts).IsChain := by
  match parts, several with
  | first :: second :: rest, _ => exact ⟨c, first :: second :: rest, rfl⟩

theorem IsChain.resolve {α β : Type} {value : α → Option β} {e : Expression α} {e' : Expression β}
    (chain : e.IsChain) (resolved : e.resolve value = some e') : e'.IsChain := by
  obtain ⟨c, parts, rfl⟩ := chain
  rw [Expression.resolve] at resolved
  obtain ⟨others, _, rfl⟩ := Option.map_eq_some_iff.mp resolved
  exact ⟨c, others, rfl⟩

end Expression

/-- A part of the condition between two parentheses has been finished. -/
def Level.Continued (level : Level) : Prop := level.alternatives ≠ [] ∨ level.conjuncts ≠ []

theorem Level.continued_next (level : Level) (e : Expression Operand) (c : Connective) :
    (level.next e c).Continued := by
  cases c with
  | and => exact .inr (List.cons_ne_nil _ _)
  | or => exact .inl (List.cons_ne_nil _ _)

theorem Level.Continued.whole {level : Level} (continued : level.Continued) (e : Expression Operand) :
    (level.whole e).IsChain := by
  obtain ⟨alternatives, conjuncts, negations⟩ := level
  cases alternatives with
  | cons other rest =>
      refine Expression.isChain_joined .or ?_
      simp only [List.length_reverse, List.length_cons]
      omega
  | nil =>
      rcases continued with none | some
      · exact absurd rfl none
      · refine Expression.isChain_joined .and ?_
        have : 0 < conjuncts.length := List.length_pos_iff.mpr some
        simp only [List.length_reverse, List.length_cons]
        omega

namespace Reader

variable {reserved : List String} {r next : Reader}

/-- What has been read outside of all parentheses. -/
def outermost (r : Reader) : Level := r.outer.getLast?.getD r.level

theorem outermost_opened (level : Level) (outer : List Level) (place : Place) :
    outermost ⟨.start, level :: outer, place⟩ = outer.getLast?.getD level := by
  rw [outermost, List.getLast?_cons]
  rfl

theorem continued_afterCondition {level : Level} {outer : List Level} {e : Expression Operand}
    {l : Lexeme} (continued : (outer.getLast?.getD level).Continued)
    (taken : afterCondition level outer e l = some next) : next.outermost.Continued := by
  have connected : ∀ c, (outer.getLast?.getD (level.next e c)).Continued := by
    intro c
    cases outer with
    | nil => exact level.continued_next e c
    | cons before rest => rwa [List.getLast?_cons] at continued ⊢
  unfold afterCondition at taken
  split at taken
  · split at taken
    · cases taken
      exact connected .and
    · split at taken
      · cases taken
        exact connected .or
      · cases taken
  · split at taken
    · cases taken
    · cases taken
      rw [List.getLast?_cons] at continued
      exact continued
  · cases taken

theorem continued_afterOperand {level : Level} {outer : List Level} {use : Use} {o : Operand}
    {l : Lexeme} (continued : (outer.getLast?.getD level).Continued)
    (taken : afterOperand level outer use o l = some next) : next.outermost.Continued := by
  unfold afterOperand at taken
  split at taken
  · exact continued_afterCondition continued taken
  · exact continued_afterCondition continued taken
  · cases taken
    exact continued
  · cases taken
    exact continued
  · cases taken

theorem continued_condition {level : Level} {outer : List Level} {l : Lexeme}
    (continued : (outer.getLast?.getD level).Continued)
    (taken : condition level outer l = some next) : next.outermost.Continued := by
  unfold condition at taken
  split at taken
  · split at taken
    · cases taken
      cases outer with
      | nil => exact continued
      | cons before rest => rwa [outermost, List.getLast?_cons] at *
    · split at taken
      · cases taken
        exact continued
      · split at taken
        · cases taken
          exact continued
        · cases taken
  · cases taken
    rwa [outermost_opened]
  · cases taken
    exact continued
  · cases taken

/-- Once a part of the whole condition is finished, one remains finished. -/
theorem continued_step {l : Lexeme} (continued : r.outermost.Continued)
    (taken : r.step reserved l = some next) : next.outermost.Continued := by
  unfold step at taken
  split at taken
  · exact continued_condition continued taken
  · cases taken
    exact continued
  · cases taken
    exact continued
  · obtain ⟨place, _, rfl⟩ := Option.map_eq_some_iff.mp taken
    exact continued
  · obtain ⟨place, _, rfl⟩ := Option.map_eq_some_iff.mp taken
    exact continued
  · cases taken
    exact continued
  · cases taken
    exact continued
  · cases taken
    exact continued
  · exact continued_afterOperand continued taken
  · split at taken
    · cases taken
      exact continued
    · split at taken
      · cases taken
      · exact continued_afterOperand continued taken
  · exact continued_afterCondition continued taken
  · cases taken

theorem continued_foldlM {lexemes : List Lexeme} (continued : r.outermost.Continued)
    (read : lexemes.foldlM (step reserved) r = some next) : next.outermost.Continued :=
  Request.foldlM_invariant (fun r => r.outermost.Continued) (fun _ _ _ => continued_step) continued read

theorem isChain_finish {e : Expression Operand} (continued : r.outermost.Continued)
    (finished : r.finish = some e) : e.IsChain := by
  unfold finish at finished
  split at finished
  · next closed =>
      obtain ⟨last, _, rfl⟩ := Option.map_eq_some_iff.mp finished
      rw [outermost, List.isEmpty_iff.mp closed] at continued
      exact Level.Continued.whole continued last
  · cases finished

/-- A word after an operand begins a further part. -/
theorem continued_word {level : Level} {use : Use} {o : Operand} {w : String}
    (taken : afterOperand level [] use o (.word w) = some next) : next.outermost.Continued := by
  have connected : ∀ e, afterCondition level [] e (.word w) = some next →
      next.outermost.Continued := by
    intro e taken
    simp only [afterCondition] at taken
    split at taken
    · cases taken
      exact level.continued_next e .and
    · split at taken
      · cases taken
        exact level.continued_next e .or
      · cases taken
  cases use with
  | compare column comparison => exact connected _ taken
  | like column => exact connected _ taken
  | member column before => cases taken

/-- The type of a cast ends before the first of its words that is reserved. What follows there can only be
a further part. -/
theorem continued_type {level : Level} {use : Use} {n : Nat} {words : List (List Char)}
    (kept : ∃ w ∈ words, upper (String.ofList w) ∈ reserved) {chars : List Char} {later : List Lexeme}
    (read : ((words.map fun w => Lexeme.word (String.ofList w)) ++ later).foldlM (step reserved)
      ⟨level, [], .type use n chars⟩ = some next) : next.outermost.Continued := by
  induction words generalizing chars with
  | nil =>
      obtain ⟨w, listed, _⟩ := kept
      cases listed
  | cons w rest ih =>
      rw [List.map_cons, List.cons_append, List.foldlM_cons] at read
      obtain ⟨r, taken, read⟩ := Option.bind_eq_some_iff.mp read
      by_cases here : upper (String.ofList w) ∈ reserved
      · simp only [step, typeWith, if_pos here] at taken
        split at taken
        · cases taken
        · exact continued_foldlM (continued_word taken) read
      · simp only [step, typeWith, if_neg here, Option.some.injEq] at taken
        subst taken
        refine ih ?_ read
        obtain ⟨v, listed, isReserved⟩ := kept
        rcases List.mem_cons.mp listed with rfl | later
        · exact absurd isReserved here
        · exact ⟨v, later, isReserved⟩

end Reader

/-- A text that begins with a test of a column, and has a reserved word in the type of the first operand, is
read as a chain if at all. -/
theorem isChain_of_reserved {reserved : List String} (tests : List Lexeme) (use : Use) {n : Nat}
    (begun : tests.foldlM (Reader.step reserved) .start = some ⟨.start, [], .operand use⟩)
    {words : List (List Char)} (kept : ∃ w ∈ words, upper (String.ofList w) ∈ reserved)
    (later : List Lexeme) {e : Expression Operand}
    (read : Expression.ofLexemes? reserved (tests ++ (.placeholder n :: .cast ::
      ((words.map fun w => Lexeme.word (String.ofList w)) ++ later))) = some e) : e.IsChain := by
  obtain ⟨r, read, finished⟩ := Option.bind_eq_some_iff.mp read
  rw [Reader.foldlM_append begun] at read
  exact Reader.isChain_finish (Reader.continued_type kept read) finished

/-- A cast is read as its placeholder, the words of the type, and perhaps brackets. -/
theorem cast_spelled {type : String} (accepted : Text.isColumnType type = true) (n : Nat) :
    ∃ (words : List (List Char)) (later : List Lexeme),
      Spelled (Pieces.chars (parameter n (some type))) (.placeholder n :: .cast ::
        ((words.map fun w => Lexeme.word (String.ofList w)) ++ later)) ∧
      (¬Unreserved type → ∃ w ∈ words, upper (String.ofList w) ∈ reservedWords) := by
  have castable : Castable [] (some type) := by
    rintro _ ⟨⟩
    exact ⟨accepted, fun _ _ => List.not_mem_nil⟩
  obtain ⟨lexemes, lexed, spelled⟩ := parameter_lexed castable n
  cases lexed with
  | @cast _ first rest isArray plain _ =>
      refine ⟨first :: rest, _, spelled, fun kept => ?_⟩
      simp only [Unreserved, not_forall, not_not] at kept
      obtain ⟨w, listed, isReserved⟩ := kept
      rw [typeWords_typeChars isArray plain] at listed
      rcases List.mem_append.mp listed with isWord | none
      · obtain ⟨v, inType, rfl⟩ := List.mem_map.mp isWord
        exact ⟨v, inType, isReserved⟩
      · -- what stands before and between the brackets is no word
        cases isArray with
        | false => cases none
        | true =>
            obtain rfl : w = "" := by simpa using none
            exact absurd isReserved (by decide)

theorem Reads.read? {reserved : List String} {start : Nat} {f : Fragment}
    {e : Expression (Value × Option String)} (reads : Reads reserved start f e) :
    ∃ tree, Expression.read? reserved f.text = some tree ∧
      tree.resolve (Operand.bound? start f.params) = some e := by
  obtain ⟨lexemes, tree, spelled, parsed, resolved⟩ := reads
  have lexed : Lexeme.ofChars? f.text.toList = some lexemes := by
    rw [Fragment.text, Pieces.toList_text]
    exact spelled.ofChars?_eq apart_nil
  exact ⟨tree, by rw [Expression.read?, lexed, Option.bind_some, parsed.ofLexemes?], resolved⟩

/-- Text that is read as some lexemes is read as the condition that these are. -/
theorem ofLexemes?_of_read? {reserved : List String} {text : Pieces} {lexemes : List Lexeme}
    {e : Expression Operand} (spelled : Spelled text.chars lexemes)
    (read : Expression.read? reserved (Pieces.text text) = some e) :
    Expression.ofLexemes? reserved lexemes = some e := by
  rwa [Expression.read?, Pieces.toList_text, spelled.ofChars?_eq apart_nil,
    Option.bind_some] at read

/-- A filter of one field that is put together from no other filters. -/
inductive Tests (field : String) : Filter → Prop
  | compare (c : Comparison) (value : Value) : Tests field (.compare c field value)
  | isIn (values : List Value) : Tests field (.isIn field values)
  | isNull : Tests field (.isNull field)
  | isNotNull : Tests field (.isNotNull field)
  | like (pattern : String) : Tests field (.like field pattern)

theorem nullTest_uncast (column : Column) (isNull : Bool) (type : String) :
    Piece.cast type ∉ (nullTest column isNull).pieces := by
  simp [nullTest, Fragment.ofPieces, Column.pieces]

theorem parameter_cast (start : Nat) (type : String) :
    Piece.cast type ∈ parameter start (some type) := by
  simp [parameter]

section Tests

variable {format : Format} {field type : String} (declared : format.type? field = some type)
include declared

/-- A test is rendered without a cast, or compares the column with parameters that are cast. -/
theorem tests_rendered {filter : Filter} (tests : Tests field filter) (label : String) (start : Nat) :
    ∃ f, predicate format label start filter = .ok f ∧
      let column := columnOf format label field
      let e := filter.expression (columnOf format label) format.type?
      (.cast type ∉ f.pieces ∧
        ∀ reserved, (∀ c : Connective, c.word ∈ reserved) → Reads reserved start f e) ∨
      (∃ c value, e = .compare column c (value, some type) ∧
        f = ⟨column.pieces ++ .words s!" {Comparison.sign c} " :: parameter start (some type),
          [value]⟩) ∨
      ∃ first rest, e = .isIn column ((first :: rest).map (·, some type)) ∧
        f = ⟨column.pieces ++ .words " IN (" :: Pieces.separated ", "
          (parameters start (first :: rest).length (some type)) ++ [.words ")"], first :: rest⟩ := by
  have known : format.hasField field = true := by
    obtain ⟨f, found, _⟩ := Option.bind_eq_some_iff.mp declared
    obtain ⟨listed, same⟩ := Format.field?_cases found
    exact Format.hasField_iff.mpr ⟨f, listed, same⟩
  obtain ⟨column, found⟩ : ∃ column, fieldColumn format label field = .ok column :=
    fieldColumn_succeeds known
  obtain rfl := fieldColumn_eq found
  cases tests with
  | compare c value =>
      rw [predicate, found, Result.ok_bind]
      split
      · exact ⟨_, rfl, .inl ⟨nullTest_uncast _ true type, fun _ _ => .nullTest _ true⟩⟩
      · exact ⟨_, rfl, .inl ⟨nullTest_uncast _ false type, fun _ _ => .nullTest _ false⟩⟩
      · next notEq notNe =>
          refine ⟨_, rfl, .inr (.inl ⟨c, value, ?_, ?_⟩)⟩
          · rw [Filter.expression, declared]
            · exact notEq
            · exact notNe
          · rw [declared]
  | isIn values =>
      rw [predicate]
      cases values with
      | nil =>
          have uncast : Piece.cast type ∉ (Fragment.ofPieces [.words "FALSE"]).pieces := by
            simp [Fragment.ofPieces]
          exact ⟨_, rfl, .inl ⟨uncast, fun _ _ => .constant false⟩⟩
      | cons first rest =>
          refine ⟨_, ?_, .inr (.inr ⟨first, rest, ?_, rfl⟩)⟩
          · rw [found, declared]
            rfl
          · rw [Filter.expression, declared]
            rfl
  | isNull =>
      rw [predicate, found, Result.ok_bind]
      exact ⟨_, rfl, .inl ⟨nullTest_uncast _ true type, fun _ _ => .nullTest _ true⟩⟩
  | isNotNull =>
      rw [predicate, found, Result.ok_bind]
      exact ⟨_, rfl, .inl ⟨nullTest_uncast _ false type, fun _ _ => .nullTest _ false⟩⟩
  | like pattern =>
      rw [predicate, found, Result.ok_bind]
      refine ⟨_, rfl, .inl ⟨?_, fun _ connectives => .like connectives _ pattern⟩⟩
      simp [Column.pieces, parameter]

end Tests

section Extent

variable {type : String} (accepted : Text.isColumnType type = true) (kept : ¬Unreserved type)
  {column : Column} {start : Nat} {tree : Expression Operand}
include accepted kept

theorem isChain_of_comparison {c : Comparison} (read : Expression.read? reservedWords (Pieces.text
      (column.pieces ++ .words s!" {Comparison.sign c} " :: parameter start (some type))) =
        some tree) : tree.IsChain := by
  obtain ⟨words, later, spelled, named⟩ := cast_spelled accepted start
  have lexed := ofLexemes?_of_read? (ReadAs.compared column c spelled) read
  exact isChain_of_reserved (column.lexemes ++ [.comparison c]) (.compare column c) rfl (named kept) later
    lexed

theorem isChain_of_list {count : Nat} (read : Expression.read? reservedWords (Pieces.text
      (column.pieces ++ .words " IN (" ::
        Pieces.separated ", " (parameters start (count + 1) (some type)) ++ [.words ")"])) =
          some tree) : tree.IsChain := by
  obtain ⟨words, later, spelled, named⟩ := cast_spelled accepted start
  have castable : Castable [] (some type) := by
    rintro _ ⟨⟩
    exact ⟨accepted, fun _ _ => List.not_mem_nil⟩
  obtain ⟨others, _, allSpelled⟩ := parameters_lexed castable (List.range' (start + 1) count)
  rw [parameters_eq, List.range'_succ, List.map_cons] at read
  have lexed := ofLexemes?_of_read? (ReadAs.listed column spelled allSpelled) read
  refine isChain_of_reserved (n := start) (column.lexemes ++ [.word "IN", .mark '('])
    (.member column []) rfl (named kept) (later ++ (others.flatMap (.mark ',' :: ·) ++ [.mark ')'])) ?_
  rw [← lexed]
  simp only [List.append_assoc, List.cons_append]

end Extent

/-- A condition that is no chain is read if no word of the type is reserved, and else is not what is read. -/
theorem read_iff_unreserved {type : String} {start : Nat} {f : Fragment}
    {e : Expression (Value × Option String)} (cast : .cast type ∈ f.pieces) (single : ¬e.IsChain)
    (reads : Unreserved type → Reads reservedWords start f e)
    (chained : ¬Unreserved type → ∀ tree, Expression.read? reservedWords f.text = some tree →
      tree.IsChain) :
    ((∃ tree, Expression.read? reservedWords f.text = some tree ∧
        tree.resolve (Operand.bound? start f.params) = some e) ↔
      (.cast type ∈ f.pieces → Unreserved type)) ∧
      (.cast type ∈ f.pieces → ¬Unreserved type → ∀ tree e',
        Expression.read? reservedWords f.text = some tree →
          tree.resolve (Operand.bound? start f.params) = some e' → e'.IsChain) := by
  refine ⟨⟨?_, fun free => (reads (free cast)).read?⟩,
    fun _ kept tree _ read resolved => (chained kept tree read).resolve resolved⟩
  rintro ⟨tree, read, resolved⟩ _
  by_contra kept
  exact single ((chained kept tree read).resolve resolved)

/-- A test of a field that is declared with an accepted type is read as this one test, with the column of
the field and the parameters cast to the whole type, exactly if nothing is cast or no word of the type is
reserved. Otherwise it is read as several conditions if at all. -/
theorem read_as_one_iff {format : Format} {field type : String}
    (accepted : Text.checkColumnType type = .ok ()) (declared : format.type? field = some type)
    {filter : Filter} (tests : Tests field filter) (label : String) (start : Nat) :
    ∃ f, predicate format label start filter = .ok f ∧
      ((∃ tree, Expression.read? reservedWords f.text = some tree ∧
          tree.resolve (Operand.bound? start f.params) =
            some (filter.expression (columnOf format label) format.type?)) ↔
        (.cast type ∈ f.pieces → Unreserved type)) ∧
      (.cast type ∈ f.pieces → ¬Unreserved type → ∀ tree e,
        Expression.read? reservedWords f.text = some tree →
          tree.resolve (Operand.bound? start f.params) = some e → e.IsChain) := by
  have plain := Text.isColumnType_of_check accepted
  have connectives : ∀ c : Connective, c.word ∈ reservedWords := fun c =>
    List.mem_append_left _ (connective_word_mem c)
  have castable : Unreserved type → Castable reservedWords (some type) := by
    rintro free _ ⟨⟩
    exact ⟨plain, free⟩
  obtain ⟨f, rendered, uncast | ⟨c, value, one, rfl⟩ | ⟨first, rest, one, rfl⟩⟩ :=
    tests_rendered declared tests label start
  · obtain ⟨uncast, reads⟩ := uncast
    exact ⟨f, rendered, ⟨fun _ cast => absurd cast uncast, fun _ => (reads _ connectives).read?⟩,
      fun cast => absurd cast uncast⟩
  · refine ⟨_, rendered, read_iff_unreserved ?_ ?_ (fun free => ?_)
      fun kept tree read => isChain_of_comparison plain kept read⟩
    · exact List.mem_append_right _ (List.mem_cons_of_mem _ (parameter_cast start type))
    · rw [one]
      rintro ⟨_, _, ⟨⟩⟩
    · rw [one]
      exact .compare connectives (castable free) _ c value
  · refine ⟨_, rendered, read_iff_unreserved ?_ ?_ (fun free => ?_)
      fun kept tree read => isChain_of_list plain kept read⟩
    · refine List.mem_append_left _ (List.mem_append_right _ (List.mem_cons_of_mem _ ?_))
      rw [List.length_cons, parameters_eq, List.range'_succ, List.map_cons, Pieces.separated_eq]
      exact List.mem_append_left _ (parameter_cast start type)
    · rw [one]
      rintro ⟨_, _, ⟨⟩⟩
    · rw [one]
      exact .isIn connectives (castable free) _ first rest

/-- Two times are read as the members of one list, whatever letters the type is written in. -/
theorem read_as_one_seenAt :
    ∃ f tree, predicate devices "0" 2 (.isIn "seenAt" [.text "2024-01-01", .text "2024-01-02"]) = .ok f ∧
      Expression.read? reservedWords f.text = some tree ∧
      tree.resolve (Operand.bound? 2 f.params) = some (.isIn ⟨"0", "seen_at"⟩
        [(.text "2024-01-01", some "timestamp with time zone"),
          (.text "2024-01-02", some "timestamp with time zone")]) := by
  have accepted : Text.checkColumnType "timestamp with time zone" = .ok () := by
    decide +kernel
  obtain ⟨f, rendered, read, _⟩ := read_as_one_iff accepted
    (rfl : devices.type? "seenAt" = some "timestamp with time zone")
    (.isIn [.text "2024-01-01", .text "2024-01-02"]) "0" 2
  obtain ⟨tree, read, resolved⟩ := read.mpr fun _ => by decide
  exact ⟨f, tree, rendered, read, resolved⟩

/-- Users by an identifier whose declared type is accepted although it goes on like a condition. -/
def openUsers : Format where
  name := "user"
  table := "users"
  fields := [⟨"id", "id", some "uuid OR TRUE"⟩, ⟨"name", "name", none⟩]

/-- One user is asked for, and the condition is true of all of them. -/
theorem read_as_alternative : openUsers.check = .ok () ∧
    ∃ f, predicate openUsers "0" 1 (.compare .eq "id" (.text "a")) = .ok f ∧
      (Expression.read? reservedWords f.text).bind (·.resolve (Operand.bound? 1 f.params)) =
        some (.chain .or [.compare ⟨"0", "id"⟩ .eq (.text "a", some "uuid"), .constant true]) ∧
      ∀ judge row, Expression.holds judge row
        (.chain .or [.compare ⟨"0", "id"⟩ .eq (.text "a", some "uuid"), .constant true]) = some true := by
  refine ⟨by decide +kernel, _, rfl, by with_unfolding_all rfl, fun judge row => ?_⟩
  rw [Expression.holds, Connective.foldl_combine, Connective.overall_neutral]
  have alternative : some true ∈ Expression.holdsEach judge row
      [.compare ⟨"0", "id"⟩ .eq (.text "a", some "uuid"), .constant true] := by
    simp [Expression.holdsEach, Expression.holds]
  simp [Connective.overall, Connective.neutral, alternative]

end NestedQuery.Sql
