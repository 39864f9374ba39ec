/- How the text of a statement is read: names, placeholders, words and marks, each as long as it goes. What
is written piece by piece is read piece by piece where no two pieces run together. -/
import NestedQuery.Proofs.Placeholders

namespace NestedQuery

namespace Text

theorem length_readQuotedRest {chars name later : List Char}
    (given : readQuotedRest chars = some (name, later)) : later.length < chars.length := by
  fun_induction readQuotedRest chars generalizing name later with
  | case1 => cases given
  | case2 rest ih =>
      obtain ⟨⟨inner, after⟩, found, same⟩ := Option.map_eq_some_iff.mp given
      cases same
      have := ih found
      simp only [List.length_cons]
      omega
  | case3 rest _ =>
      cases given
      exact Nat.lt_succ_self _
  | case4 c rest _ _ ih =>
      obtain ⟨⟨inner, after⟩, found, same⟩ := Option.map_eq_some_iff.mp given
      cases same
      have := ih found
      simp only [List.length_cons]
      omega

/-- A quoted name is read back, unless a further quote follows it. -/
theorem readQuotedRest_doubleQuotes (name : List Char) {rest : List Char}
    (apart : ∀ c ∈ rest.head?, c ≠ '"') :
    readQuotedRest (doubleQuotes name ++ '"' :: rest) = some (name, rest) := by
  induction name with
  | nil =>
      cases rest with
      | nil => rfl
      | cons c later =>
          rw [doubleQuotes, List.nil_append, readQuotedRest]
          intro again same
          exact apart c rfl (List.cons.inj same).1
  | cons c others ih =>
      by_cases quote : c = '"'
      · subst quote
        rw [doubleQuotes, if_pos rfl, List.cons_append, List.cons_append, readQuotedRest, ih]
        rfl
      · rw [doubleQuotes, if_neg quote, List.cons_append, readQuotedRest, ih]
        · rfl
        · exact fun _ same => absurd same quote
        · exact quote

end Text

namespace Sql

inductive Lexeme where
  | name (text : String)
  | placeholder (index : Nat)
  | word (text : String)
  | comparison (c : Comparison)
  /-- What introduces the type of a cast. -/
  | cast
  | mark (c : Char)
  deriving DecidableEq, Repr

namespace Lexeme

/-- A comparison, the start of a cast, or a mark, and what follows it. -/
def sign? : List Char → Option (Lexeme × List Char)
  | ':' :: ':' :: rest => some (.cast, rest)
  | '<' :: '>' :: rest => some (.comparison .ne, rest)
  | '<' :: '=' :: rest => some (.comparison .lte, rest)
  | '>' :: '=' :: rest => some (.comparison .gte, rest)
  | '<' :: rest => some (.comparison .lt, rest)
  | '>' :: rest => some (.comparison .gt, rest)
  | '=' :: rest => some (.comparison .eq, rest)
  | c :: rest => if c ∈ ['.', ',', '(', ')', '[', ']'] then some (.mark c, rest) else none
  | [] => none

/-- The lexeme that a text starts with, and what follows it. -/
def next? : List Char → Option (Lexeme × List Char)
  | [] => none
  | c :: rest =>
    if Text.isNameStart c then
      some (.word (String.ofList (c :: rest.takeWhile Text.isNameChar)), rest.dropWhile Text.isNameChar)
    else if c = '"' then
      (Text.readQuotedRest rest).map fun r => (.name (String.ofList r.1), r.2)
    else if c = '$' then
      let digits := rest.takeWhile Char.isDigit
      if digits = [] then none
      else some (.placeholder (Nat.ofDigitChars 10 digits 0), rest.dropWhile Char.isDigit)
    else sign? (c :: rest)

theorem length_sign? {text later : List Char} {l : Lexeme} (given : sign? text = some (l, later)) :
    later.length < text.length := by
  unfold sign? at given
  split at given
  case h_8 =>
    split at given
    · cases given
      exact Nat.lt_succ_self _
    · cases given
  case h_9 => cases given
  all_goals
    cases given
    simp only [List.length_cons]
    omega

theorem length_next? {text later : List Char} {l : Lexeme} (given : next? text = some (l, later)) :
    later.length < text.length := by
  cases text with
  | nil => cases given
  | cons c rest =>
      have shorter := fun p : Char → Bool => (List.dropWhile_sublist (l := rest) p).length_le
      rw [next?] at given
      split at given
      · cases given
        exact Nat.lt_succ_of_le (shorter _)
      · split at given
        · obtain ⟨⟨name, after⟩, found, same⟩ := Option.map_eq_some_iff.mp given
          cases same
          exact Nat.lt_succ_of_lt (Text.length_readQuotedRest found)
        · split at given
          · simp only at given
            split at given
            · cases given
            · cases given
              exact Nat.lt_succ_of_le (shorter _)
          · exact length_sign? given

/-- The lexemes of a text, between which there may be spaces. -/
def ofChars? (text : List Char) : Option (List Lexeme) :=
  match text with
  | [] => some []
  | ' ' :: rest => ofChars? rest
  | c :: rest =>
    match _given : next? (c :: rest) with
    | none => none
    | some (l, later) => (ofChars? later).map (l :: ·)
termination_by text.length
decreasing_by
  · exact Nat.lt_succ_self _
  · exact length_next? _given

theorem ofChars?_space (rest : List Char) : ofChars? (' ' :: rest) = ofChars? rest := by
  rw [ofChars?]

theorem ofChars?_next {c : Char} {rest later : List Char} {l : Lexeme} (full : c ≠ ' ')
    (given : next? (c :: rest) = some (l, later)) :
    ofChars? (c :: rest) = (ofChars? later).map (l :: ·) := by
  rw [ofChars?]
  · split
    · next none => cases given.symm.trans none
    · next some =>
      cases given.symm.trans some
      rfl
  · exact full

end Lexeme

/-- What follows a name or a word without running together with it. -/
def Apart (rest : List Char) : Prop := ∀ c ∈ rest.head?, Text.isNameChar c = false ∧ c ≠ '"'

theorem apart_nil : Apart [] := by
  rintro _ ⟨⟩

theorem apart_cons {c : Char} (apart : Text.isNameChar c = false ∧ c ≠ '"') (rest : List Char) :
    Apart (c :: rest) := by
  intro d first
  cases first
  exact apart

/-- A text is read as some lexemes where something of a kind follows. -/
def ReadAs (follows : List Char → Prop) (text : List Char) (lexemes : List Lexeme) : Prop :=
  ∀ rest, follows rest →
    Lexeme.ofChars? (text ++ rest) = (Lexeme.ofChars? rest).map (lexemes ++ ·)

/-- Read as some lexemes wherever it stands. -/
abbrev Settled : List Char → List Lexeme → Prop := ReadAs fun _ => True

/-- Read as some lexemes where nothing runs together with its end. -/
abbrev Spelled : List Char → List Lexeme → Prop := ReadAs Apart

theorem takeWhile_append {p : Char → Bool} {body rest : List Char} (inside : ∀ c ∈ body, p c = true)
    (ends : ∀ c ∈ rest.head?, p c = false) :
    (body ++ rest).takeWhile p = body ∧ (body ++ rest).dropWhile p = rest := by
  rw [List.takeWhile_append_of_pos inside, List.dropWhile_append_of_pos inside]
  cases rest with
  | nil => exact ⟨List.append_nil body, rfl⟩
  | cons c later =>
      have stop : ¬p c = true := by simpa using ends c rfl
      rw [List.takeWhile_cons_of_neg stop, List.dropWhile_cons_of_neg stop, List.append_nil]
      exact ⟨rfl, rfl⟩

namespace ReadAs

variable {p q : List Char → Prop} {a b : List Char} {A B : List Lexeme}

theorem ofChars?_eq (read : ReadAs p a A) (ends : p []) : Lexeme.ofChars? a = some A := by
  have whole := read [] ends
  rw [List.append_nil, Lexeme.ofChars?, Option.map_some, List.append_nil] at whole
  exact whole

theorem of_settled (read : Settled a A) : ReadAs p a A := fun rest _ => read rest trivial

theorem append (first : ReadAs p a A) (later : ReadAs q b B) (meets : ∀ rest, q rest → p (b ++ rest)) :
    ReadAs q (a ++ b) (A ++ B) := by
  intro rest follows
  rw [List.append_assoc, first _ (meets rest follows), later rest follows, Option.map_map]
  simp only [Function.comp_def, List.append_assoc]

theorem nil : ReadAs p [] [] := by
  intro rest _
  cases read : Lexeme.ofChars? rest with
  | none => simp [read]
  | some lexemes => simp [read]

theorem space (read : ReadAs p a A) : ReadAs p (' ' :: a) A := by
  intro rest follows
  rw [List.cons_append, Lexeme.ofChars?_space, read rest follows]

/-- One lexeme, and what is read after it. -/
theorem next {c : Char} {text : List Char} {l : Lexeme} (full : c ≠ ' ')
    (given : ∀ rest, p rest → Lexeme.next? (c :: (text ++ rest)) = some (l, rest)) :
    ReadAs p (c :: text) [l] := by
  intro rest follows
  rw [List.cons_append, Lexeme.ofChars?_next full (given rest follows)]
  rfl

/-- A word is a letter or an underscore, and what may follow these in a word. -/
theorem word {c : Char} {chars : List Char} (start : Text.isNameStart c = true)
    (others : ∀ d ∈ chars, Text.isNameChar d = true) :
    Spelled (c :: chars) [.word (String.ofList (c :: chars))] := by
  refine next ?_ fun rest apart => ?_
  · rintro rfl
    exact absurd start (by decide)
  · obtain ⟨taken, dropped⟩ := takeWhile_append others fun d first => (apart d first).1
    rw [Lexeme.next?, if_pos start, taken, dropped]

theorem name (text : String) : Spelled (Text.quotedName text).toList [.name text] := by
  rw [Text.quotedName, String.toList_ofList]
  refine next (by decide) fun rest apart => ?_
  have whole : (Text.doubleQuotes text.toList).append ['"'] ++ rest =
      Text.doubleQuotes text.toList ++ '"' :: rest := List.append_assoc _ _ _
  rw [Lexeme.next?, if_neg (by decide), if_pos rfl, whole,
    Text.readQuotedRest_doubleQuotes text.toList fun c first => (apart c first).2, Option.map_some,
    String.ofList_toList]

theorem placeholder (n : Nat) : Spelled (Piece.text (.placeholder n)).toList [.placeholder n] := by
  rw [Piece.text_placeholder]
  refine next (by decide) fun rest apart => ?_
  have ends : ∀ c ∈ rest.head?, c.isDigit = false := by
    intro c first
    have other := (apart c first).1
    rw [Text.isNameChar, Char.isAlphanum, Bool.or_eq_false_iff, Bool.or_eq_false_iff] at other
    exact other.1.2
  obtain ⟨taken, dropped⟩ := takeWhile_append (isDigit_toString n) ends
  have some : (toString n).toList ≠ [] := by
    rw [Nat.toString_eq_ofList_toDigits, String.toList_ofList]
    exact Nat.toDigits_ne_nil
  rw [Lexeme.next?, if_neg (by decide), if_neg (by decide), if_pos rfl]
  simp only [taken, dropped, if_neg some]
  rw [Nat.toString_eq_ofList_toDigits, String.toList_ofList, Nat.ofDigitChars_ten_toDigits]

theorem mark {c : Char} (listed : c ∈ ['.', ',', '(', ')', '[', ']']) : Settled [c] [.mark c] := by
  refine next ?_ fun rest _ => ?_
  · rintro rfl
    exact absurd listed (by decide)
  · simp only [List.mem_cons, List.not_mem_nil, or_false] at listed
    rcases listed with rfl | rfl | rfl | rfl | rfl | rfl <;> rfl

/-- A space or a mark runs together with nothing. -/
theorem then_space (read : Spelled a A) : Settled (a ++ [' ']) A := by
  have whole := read.append (nil (p := fun _ => True)).space fun rest _ => apart_cons (by decide) rest
  rwa [List.append_nil] at whole

theorem then_mark (read : Spelled a A) {c : Char} (listed : c ∈ ['.', ',', '(', ')', '[', ']']) :
    Settled (a ++ [c]) (A ++ [.mark c]) := by
  refine read.append (mark listed) fun rest _ => apart_cons ?_ rest
  simp only [List.mem_cons, List.not_mem_nil, or_false] at listed
  rcases listed with rfl | rfl | rfl | rfl | rfl | rfl <;> decide

theorem identifier (text : String) (plain : Text.isIdentifier text = true) :
    Spelled text.toList [.word text] := by
  rw [Text.isIdentifier] at plain
  cases chars : text.toList with
  | nil =>
      rw [chars] at plain
      cases plain
  | cons c rest =>
      rw [chars] at plain
      obtain ⟨start, others⟩ := Bool.and_eq_true_iff.mp plain
      have read := word start (List.all_eq_true.mp others)
      rwa [← chars, String.ofList_toList, chars] at read

/-- Words with a space between them. -/
theorem words (first : List Char) (rest : List (List Char))
    (plain : ∀ w ∈ first :: rest, Text.isIdentifier (String.ofList w) = true) :
    Spelled (first ++ rest.flatMap (' ' :: ·))
      ((first :: rest).map fun w => .word (String.ofList w)) := by
  induction rest generalizing first with
  | nil =>
      have read := identifier _ (plain first (List.mem_cons_self ..))
      rw [String.toList_ofList] at read
      rwa [List.flatMap_nil, List.append_nil]
  | cons second later ih =>
      obtain ⟨here, others⟩ := List.forall_mem_cons.mp plain
      have read := identifier _ here
      rw [String.toList_ofList] at read
      exact read.append (ih second others).space fun rest _ => apart_cons (by decide) _

theorem comparison (c : Comparison) : Settled s!" {Comparison.sign c} ".toList [.comparison c] := by
  intro rest _
  have read : ∀ (first : Char) (text later : List Char), first ≠ ' ' →
      Lexeme.next? (first :: text) = some (.comparison c, ' ' :: later) →
      Lexeme.ofChars? (' ' :: first :: text) = (Lexeme.ofChars? later).map ([.comparison c] ++ ·) := by
    intro first text later full given
    rw [Lexeme.ofChars?_space, Lexeme.ofChars?_next full given, Lexeme.ofChars?_space]
    rfl
  cases c with
  | eq => exact read '=' (' ' :: rest) rest (by decide) rfl
  | ne => exact read '<' ('>' :: ' ' :: rest) rest (by decide) rfl
  | lt => exact read '<' (' ' :: rest) rest (by decide) rfl
  | lte => exact read '<' ('=' :: ' ' :: rest) rest (by decide) rfl
  | gt => exact read '>' (' ' :: rest) rest (by decide) rfl
  | gte => exact read '>' ('=' :: ' ' :: rest) rest (by decide) rfl

end ReadAs

/-- The words of a type: what stands between its spaces and brackets. -/
def typeWords (type : String) : List String :=
  (type.toList.splitOnP fun c => !Text.isNameChar c).map String.ofList

/-- The lexemes of a type that is an array of something or not. -/
def typeLexemes (words : List (List Char)) (isArray : Bool) : List Lexeme :=
  words.map (fun w => .word (String.ofList w)) ++ if isArray then [.mark '[', .mark ']'] else []

def typeChars (first : List Char) (rest : List (List Char)) (isArray : Bool) : List Char :=
  first ++ rest.flatMap (' ' :: ·) ++ if isArray then ['[', ']'] else []

/-- A type is some words, one space apart, and perhaps brackets. -/
theorem isType_cases (chars : List Char) :
    (Text.isTypeWords chars = true → ∃ first rest isArray, chars = typeChars first rest isArray ∧
      ∀ w ∈ first :: rest, Text.isIdentifier (String.ofList w) = true) ∧
    (Text.isTypeRest chars = true → ∃ tail rest isArray, chars = typeChars tail rest isArray ∧
      (∀ c ∈ tail, Text.isNameChar c = true) ∧
      ∀ w ∈ rest, Text.isIdentifier (String.ofList w) = true) := by
  induction chars with
  | nil =>
      exact ⟨nofun, fun _ => ⟨[], [], false, rfl, nofun, nofun⟩⟩
  | cons c rest ih =>
      constructor
      · intro words
        rw [Text.isTypeWords] at words
        obtain ⟨start, others⟩ := Bool.and_eq_true_iff.mp words
        obtain ⟨tail, later, isArray, rfl, inside, plain⟩ := ih.2 others
        refine ⟨c :: tail, later, isArray, rfl, List.forall_mem_cons.mpr ⟨?_, plain⟩⟩
        rw [Text.isIdentifier, String.toList_ofList]
        exact Bool.and_eq_true_iff.mpr ⟨start, List.all_eq_true.mpr inside⟩
      · intro words
        unfold Text.isTypeRest at words
        split at words
        · next empty => cases empty
        · next brackets => exact ⟨[], [], true, brackets, nofun, nofun⟩
        · next space =>
            cases space
            obtain ⟨first, later, isArray, rfl, plain⟩ := ih.1 words
            exact ⟨[], first :: later, isArray, rfl, nofun, plain⟩
        · next same =>
            cases same
            obtain ⟨here, others⟩ := Bool.and_eq_true_iff.mp words
            obtain ⟨tail, later, isArray, rfl, inside, plain⟩ := ih.2 others
            exact ⟨c :: tail, later, isArray, rfl, List.forall_mem_cons.mpr ⟨here, inside⟩, plain⟩

theorem ReadAs.type {first : List Char} {rest : List (List Char)} (isArray : Bool)
    (plain : ∀ w ∈ first :: rest, Text.isIdentifier (String.ofList w) = true) :
    Spelled (typeChars first rest isArray) (typeLexemes (first :: rest) isArray) := by
  cases isArray with
  | false =>
      rw [typeChars, typeLexemes, if_neg Bool.false_ne_true, if_neg Bool.false_ne_true,
        List.append_nil, List.append_nil]
      exact words first rest plain
  | true =>
      have brackets : Settled ['[', ']'] [.mark '[', .mark ']'] :=
        (mark (by decide)).append (mark (by decide)) fun _ _ => trivial
      exact (words first rest plain).append (of_settled brackets) fun rest _ => apart_cons (by decide) _

theorem isNameChar_of_isIdentifier {word : List Char}
    (plain : Text.isIdentifier (String.ofList word) = true) : ∀ c ∈ word, Text.isNameChar c = true := by
  rw [Text.isIdentifier, String.toList_ofList] at plain
  cases word with
  | nil => exact nofun
  | cons c rest =>
      obtain ⟨start, others⟩ := Bool.and_eq_true_iff.mp plain
      refine List.forall_mem_cons.mpr ⟨?_, List.all_eq_true.mp others⟩
      rw [Text.isNameStart, Bool.or_eq_true] at start
      rw [Text.isNameChar, Char.isAlphanum]
      rcases start with letter | underscore
      · simp [letter]
      · simp [underscore]

theorem splitOnP_typeChars {first : List Char} {rest : List (List Char)} (isArray : Bool)
    (plain : ∀ w ∈ first :: rest, Text.isIdentifier (String.ofList w) = true) :
    (typeChars first rest isArray).splitOnP (fun c => !Text.isNameChar c) =
      first :: rest ++ if isArray then [[], []] else [] := by
  induction rest generalizing first with
  | nil =>
      have inside : ∀ c ∈ first, (!Text.isNameChar c) = false := by
        simpa using isNameChar_of_isIdentifier (plain first (List.mem_cons_self ..))
      cases isArray with
      | false =>
          rw [typeChars, List.flatMap_nil, List.append_nil, if_neg Bool.false_ne_true, List.append_nil,
            List.splitOnP_eq_singleton inside]
          rfl
      | true =>
          rw [typeChars, List.flatMap_nil, List.append_nil, if_pos rfl,
            List.splitOnP_append_cons_of_forall_mem inside _ (by decide)]
          rfl
  | cons second later ih =>
      obtain ⟨here, others⟩ := List.forall_mem_cons.mp plain
      have inside : ∀ c ∈ first, (!Text.isNameChar c) = false := by
        simpa using isNameChar_of_isIdentifier here
      have split : typeChars first (second :: later) isArray =
          first ++ ' ' :: typeChars second later isArray := by
        simp [typeChars]
      rw [split, List.splitOnP_append_cons_of_forall_mem inside _ (by decide), ih others]
      rfl

theorem typeWords_typeChars {first : List Char} {rest : List (List Char)} (isArray : Bool)
    (plain : ∀ w ∈ first :: rest, Text.isIdentifier (String.ofList w) = true) :
    typeWords (String.ofList (typeChars first rest isArray)) =
      (first :: rest).map String.ofList ++ if isArray then ["", ""] else [] := by
  rw [typeWords, String.toList_ofList, splitOnP_typeChars isArray plain, List.map_append]
  cases isArray <;> rfl

theorem mem_typeWords {first : List Char} {rest : List (List Char)} {isArray : Bool}
    (plain : ∀ w ∈ first :: rest, Text.isIdentifier (String.ofList w) = true) {w : List Char}
    (listed : w ∈ first :: rest) :
    String.ofList w ∈ typeWords (String.ofList (typeChars first rest isArray)) := by
  rw [typeWords_typeChars isArray plain]
  exact List.mem_append_left _ (List.mem_map_of_mem listed)

end Sql

end NestedQuery
