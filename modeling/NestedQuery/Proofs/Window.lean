/- The window that a statement shows: a page is one limit and one offset bound to its numbers, and a
statement that has a place for them shows the page of the query that was accepted last. -/
import Mathlib.Data.List.Chain
import NestedQuery.Proofs.Held
import NestedQuery.Proofs.Select

namespace NestedQuery.Sql

open Pieces (tokens)

namespace Pieces

/-- The letters of a word stand in a text, outside quoted names and casts. -/
def Mentions (word : String) (text : Pieces) : Prop := word.toList.map Token.letter <:+: tokens text

/-- Text with neither a limit nor an offset. -/
structure Unlimited (text : Pieces) : Prop where
  limit : ¬Mentions "LIMIT" text
  offset : ¬Mentions "OFFSET" text

end Pieces

open Pieces (Mentions Unlimited)

namespace Statement

/-- A placeholder is bound to an integer. -/
def Binds (st : Statement) (index : Nat) (n : UInt64) : Prop :=
  0 < index ∧ ∃ i : Int64, st.params[index - 1]? = some (.int i) ∧ i.toInt = n.toNat

/-- A page is shown by a limit and an offset that are bound to its size and to what comes before it, and
by no others. All rows are shown by none. -/
def Shows (st : Statement) : Option (UInt64 × UInt64) → Prop
  | none => Unlimited st.pieces
  | some (size, before) => ∃ first last limit offset,
    st.pieces = first ++ windowClause (some (limit, offset)) ++ last ∧
      Unlimited first ∧ Unlimited last ∧ st.Binds limit size ∧ st.Binds offset before

end Statement

/-- Letters that follow each other in no words but those of a window. -/
def Token.Apart (x y : Token) : Prop :=
  ¬(x = .letter 'I' ∧ y = .letter 'M') ∧ ¬(x = .letter 'F' ∧ y = .letter 'F')

instance : DecidableRel Token.Apart := fun _ _ => inferInstanceAs (Decidable (_ ∧ _))

def quietLetters : List Char → Bool
  | [] => true
  | [c] => c != 'I' && c != 'F'
  | a :: b :: rest =>
    !(a == 'I' && b == 'M') && !(a == 'F' && b == 'F') && quietLetters (b :: rest)

/-- Words that are no part of a window, also where others follow. -/
def Piece.isQuiet : Piece → Bool
  | .words text => quietLetters text.toList
  | _ => true

namespace Pieces

def Quiet (text : Pieces) : Prop := ∀ p ∈ text, p.isQuiet = true

@[simp] theorem quiet_nil : Quiet [] := nofun

@[simp] theorem quiet_words {words : String} {text : Pieces} :
    Quiet (.words words :: text) ↔ quietLetters words.toList = true ∧ Quiet text :=
  List.forall_mem_cons

@[simp] theorem quiet_name {name : String} {text : Pieces} :
    Quiet (.name name :: text) ↔ Quiet text := by
  simp [Quiet, Piece.isQuiet]

@[simp] theorem quiet_placeholder {n : Nat} {text : Pieces} :
    Quiet (.placeholder n :: text) ↔ Quiet text := by
  simp [Quiet, Piece.isQuiet]

@[simp] theorem quiet_cast {type : String} {text : Pieces} :
    Quiet (.cast type :: text) ↔ Quiet text := by
  simp [Quiet, Piece.isQuiet]

@[simp] theorem quiet_append {a b : Pieces} : Quiet (a ++ b) ↔ Quiet a ∧ Quiet b :=
  List.forall_mem_append

theorem quiet_separated {separator : String} (words : quietLetters separator.toList = true)
    {parts : List Pieces} (each : ∀ part ∈ parts, Quiet part) : Quiet (separated separator parts) := by
  cases parts with
  | nil => exact quiet_nil
  | cons part rest =>
      obtain ⟨head, tail⟩ := List.forall_mem_cons.mp each
      rw [separated_eq, quiet_append]
      refine ⟨head, ?_⟩
      intro p inside
      obtain ⟨other, listed, here⟩ := List.mem_flatMap.mp inside
      exact quiet_words.mpr ⟨words, tail other listed⟩ p here

@[simp] theorem quiet_column (c : Column) : Quiet c.pieces := by
  simp [Column.pieces, quietLetters]

@[simp] theorem quiet_parameter (n : Nat) (type : Option String) : Quiet (parameter n type) := by
  cases type with
  | none => simp [parameter]
  | some t => simp [parameter]

theorem letters_apart (letters : List Char) (quiet : quietLetters letters = true) :
    (letters.map Token.letter).IsChain Token.Apart ∧
      ∀ t ∈ (letters.map Token.letter).getLast?, t ≠ .letter 'I' ∧ t ≠ .letter 'F' := by
  fun_induction quietLetters letters with
  | case1 => exact ⟨.nil, nofun⟩
  | case2 c => simpa using quiet
  | case3 a b rest ih =>
      simp only [Bool.and_eq_true] at quiet
      obtain ⟨⟨first, second⟩, later⟩ := quiet
      obtain ⟨chain, last⟩ := ih later
      refine ⟨List.isChain_cons_cons.mpr ⟨?_, chain⟩, ?_⟩
      · constructor
        · simpa [imp_iff_not_or] using first
        · simpa [imp_iff_not_or] using second
      · simpa using last

/-- In quiet text no two letters follow each other as they do in the words of a window. -/
theorem tokens_apart {text : Pieces} (quiet : Quiet text) :
    (tokens text).IsChain Token.Apart ∧
      ∀ t ∈ (tokens text).getLast?, t ≠ .letter 'I' ∧ t ≠ .letter 'F' := by
  induction text with
  | nil => exact ⟨.nil, nofun⟩
  | cons p rest ih =>
      obtain ⟨here, later⟩ := List.forall_mem_cons.mp quiet
      obtain ⟨chain, last⟩ := ih later
      have first : p.tokens.IsChain Token.Apart ∧
          ∀ t ∈ p.tokens.getLast?, t ≠ .letter 'I' ∧ t ≠ .letter 'F' := by
        cases p with
        | words text => exact letters_apart text.toList here
        | name text => exact ⟨.singleton _, by simp [Piece.tokens]⟩
        | placeholder n => exact ⟨.singleton _, by simp [Piece.tokens]⟩
        | cast type => exact ⟨.singleton _, by simp [Piece.tokens]⟩
      have split : tokens (p :: rest) = p.tokens ++ tokens rest := rfl
      rw [split]
      refine ⟨first.1.append chain ?_, ?_⟩
      · intro x ends y _
        obtain ⟨noI, noF⟩ := first.2 x ends
        exact ⟨fun both => noI both.1, fun both => noF both.1⟩
      · intro t ends
        rw [List.getLast?_append, Option.mem_def, Option.or_eq_some_iff] at ends
        rcases ends with inRest | ⟨_, inFirst⟩
        · exact last t inRest
        · exact first.2 t inFirst

theorem unlimited_of_quiet {text : Pieces} (quiet : Quiet text) : Unlimited text := by
  have apart := (tokens_apart quiet).1
  constructor
  · intro mentioned
    have word := List.IsChain.infix apart mentioned
    exact absurd word (by decide)
  · intro mentioned
    have word := List.IsChain.infix apart mentioned
    exact absurd word (by decide)

end Pieces

open Pieces (Quiet)

variable {format : Format} {label : String}

theorem chain_quiet {start : Nat} {parts : List Fragment}
    (linked : Chain (fun _ f => Quiet f.pieces) start parts) :
    ∀ text ∈ parts.map (·.pieces), Quiet text := by
  induction linked with
  | nil => exact nofun
  | cons first _ ih => exact List.forall_mem_cons.mpr ⟨first, ih⟩

theorem closed_quiet : Closed format label fun _ f => Quiet f.pieces where
  constant := by
    intro _ value
    cases value <;> simp [Fragment.ofPieces, quietLetters]
  nullTest := by
    intro _ field _ isNull
    cases isNull <;> simp [nullTest, Fragment.ofPieces, quietLetters]
  compare := by
    intro start field _ comparison value
    refine Pieces.quiet_append.mpr ⟨Pieces.quiet_column _, Pieces.quiet_words.mpr ⟨?_, ?_⟩⟩
    · cases comparison <;> rfl
    · exact Pieces.quiet_parameter start field.type
  isIn := by
    intro start field _ first rest
    have list : Quiet (Pieces.separated ", "
        (parameters start (first :: rest).length field.type)) := by
      refine Pieces.quiet_separated (by decide) ?_
      intro part listed
      obtain ⟨i, _, rfl⟩ := List.mem_map.mp listed
      exact Pieces.quiet_parameter _ _
    simp only [Pieces.quiet_append, Pieces.quiet_words, Pieces.quiet_column, list]
    simp [quietLetters]
  like := by
    intro start field _ pattern
    simp [quietLetters]
  chain := by
    intro start first rest every linked
    have list : Quiet (Pieces.separated (if every then " AND " else " OR ")
        ((first :: rest).map (·.pieces))) := by
      refine Pieces.quiet_separated ?_ (chain_quiet linked)
      cases every <;> decide
    simp only [Pieces.quiet_append, Pieces.quiet_words, list]
    simp [quietLetters]
  negation := by
    intro start inner quiet
    simp [quiet, quietLetters]

@[simp] theorem Item.quiet (i : Item) : Quiet i.pieces := by
  simp [Item.pieces, quietLetters]

theorem Shape.source_quiet {s : Shape} {text : Pieces} (given : s.source = .ok text) : Quiet text := by
  rcases source_cases given with ⟨_, rfl⟩ | ⟨j, _, field, _, rfl⟩
  · simp [quietLetters]
  · simp [quietLetters]

namespace Clause

variable {s : Shape} {start : Nat} {f : Fragment}

theorem lateralColumns_quiet {columns : List Pieces} {link : Column}
    (rendered : lateralColumns s = .ok (columns, link)) : ∀ text ∈ columns, Quiet text := by
  have every : Quiet (everyColumn s.root.label) := by simp [everyColumn, quietLetters]
  rcases lateralColumns_cases rendered with ⟨_, rfl, _⟩ | ⟨j, _, _, rfl⟩
  · exact List.forall_mem_singleton.mpr every
  · simp [every]

theorem head_quiet (rendered : head s = .ok f) : Quiet f.pieces := by
  obtain ⟨items, _, source, given, shape⟩ := head_cases rendered
  have fromSource := Shape.source_quiet given
  have projection : Quiet (Pieces.separated ", " (items.map Item.pieces)) := by
    refine Pieces.quiet_separated (by decide) ?_
    intro text listed
    obtain ⟨i, _, rfl⟩ := List.mem_map.mp listed
    exact i.quiet
  rcases shape with ⟨_, rfl⟩ | ⟨lateral, _, columns, link, inner, rfl⟩
  · simp [Fragment.ofPieces, projection, fromSource, quietLetters]
  · have list : Quiet (Pieces.separated ", " columns) :=
      Pieces.quiet_separated (by decide) (lateralColumns_quiet inner)
    simp [Fragment.ofPieces, projection, fromSource, list, quietLetters]

theorem join_quiet {n : DataNode} (rendered : join s n start = .ok f) : Quiet f.pieces := by
  obtain ⟨id, parent, own, key, _, _, _, _, shape⟩ := join_cases rendered
  have text : Quiet (joined n own key) := by simp [joined, quietLetters]
  rcases shape with rfl | ⟨filter, inner, within, rfl⟩
  · exact text
  · have quiet := closed_quiet.predicate filter start within
    simp [text, quiet, quietLetters]

theorem joinsOf_quiet {ids : List Nat} (rendered : joinsOf s start ids = .ok f) : Quiet f.pieces := by
  induction ids generalizing start f with
  | nil =>
      cases rendered
      exact Pieces.quiet_nil
  | cons id rest ih =>
      obtain ⟨n, first, others, _, head, tail, rfl⟩ := joinsOf_cases rendered
      exact Pieces.quiet_append.mpr ⟨join_quiet head, ih tail⟩

theorem condition_quiet {lead : String} (words : quietLetters (lead ++ " (").toList = true)
    {filter : Option Filter} (rendered : condition s lead filter start = .ok f) : Quiet f.pieces := by
  rcases condition_cases rendered with ⟨_, rfl⟩ | ⟨given, inner, _, within, rfl⟩
  · exact Pieces.quiet_nil
  · have quiet := closed_quiet.predicate given start within
    simp only [Pieces.quiet_append, Pieces.quiet_words, words, quiet]
    simp [quietLetters]

theorem linkedKey_quiet {lead : String} (words : quietLetters (lead ++ " ").toList = true)
    {batch : List Value} (rendered : linkedKey s lead batch start = .ok f) : Quiet f.pieces := by
  obtain ⟨column, _, shape⟩ := linkedKey_cases rendered
  rcases shape with ⟨one, rfl⟩ | ⟨first, rest, rfl⟩
  · simp only [Pieces.quiet_append, Pieces.quiet_words, words]
    simp [quietLetters]
  · have list : Quiet (Pieces.separated "," ((parameters start (first :: rest).length s.linkedType).map
        fun p => .words "(" :: p ++ [.words ")"])) := by
      refine Pieces.quiet_separated (by decide) ?_
      intro row listed
      obtain ⟨p, member, rfl⟩ := List.mem_map.mp listed
      obtain ⟨i, _, rfl⟩ := List.mem_map.mp member
      simp [quietLetters]
    simp only [Pieces.quiet_append, Pieces.quiet_words, words, list]
    simp [quietLetters]

theorem orderBy_quiet {sort : List SortKey} (rendered : orderBy s sort = .ok f) : Quiet f.pieces := by
  obtain ⟨keys, _, rfl⟩ := orderBy_cases rendered
  split
  · exact Pieces.quiet_nil
  · refine Pieces.quiet_words.mpr ⟨by decide, Pieces.quiet_separated (by decide) ?_⟩
    intro text listed
    obtain ⟨k, _, rfl⟩ := List.mem_map.mp listed
    refine Pieces.quiet_append.mpr ⟨Pieces.quiet_column _, Pieces.quiet_words.mpr ⟨?_, Pieces.quiet_nil⟩⟩
    cases k.direction <;> rfl

end Clause

/-- No segment but the one for it has anything of a window. -/
theorem Segment.quiet {shape : Shape} {query : Query} {batch : List Value} {segment : Segment}
    (other : segment ≠ .pagination) {start : Nat} {f : Fragment}
    (rendered : segment.render shape query batch start = .ok f) : Quiet f.pieces := by
  cases segment with
  | head => exact Clause.head_quiet rendered
  | joins => exact Clause.joinsOf_quiet rendered
  | filter =>
      refine Clause.condition_quiet ?_ rendered
      split <;> decide
  | linkedKey =>
      refine Clause.linkedKey_quiet ?_ rendered
      split <;> decide
  | orderBy => exact Clause.orderBy_quiet rendered
  | pagination => exact absurd rfl other
  | lateralClose =>
      cases rendered
      simp [Clause.lateralClose, Fragment.ofPieces, quietLetters]

theorem renderAll_quiet {shape : Shape} {query : Query} {batch : List Value} {segments : List Segment}
    (others : Segment.pagination ∉ segments) {start : Nat} {f : Fragment}
    (rendered : renderAll (Segment.render shape query batch) start segments = .ok f) :
    Quiet f.pieces := by
  induction segments generalizing start f with
  | nil =>
      cases rendered
      exact Pieces.quiet_nil
  | cons segment rest ih =>
      obtain ⟨here, later⟩ := List.ne_and_not_mem_of_not_mem_cons others
      obtain ⟨first, last, head, tail, rfl⟩ := renderAll_cases rendered
      exact Pieces.quiet_append.mpr ⟨Segment.quiet (Ne.symm here) head, ih later tail⟩

/-- What comes before a page is counted like this, since no page comes before the first one. -/
theorem max_one_toNat_sub (page : UInt64) : (max page 1).toNat - 1 = page.toNat - 1 := by
  change (if page ≤ 1 then (1 : UInt64) else page).toNat - 1 = page.toNat - 1
  split
  · next first =>
      have small : page.toNat ≤ 1 := UInt64.le_iff_toNat_le.mp first
      change 1 - 1 = page.toNat - 1
      omega
  · rfl

/-- The page of a query that was checked is a window of numbers below `2 ^ 63`. -/
theorem window_lt_of_check {q : Query} {format : Format} {plural : Bool} {path : String}
    (checked : q.check format plural path = .ok ()) {size before : UInt64}
    (paged : q.window = some (size, before)) : size.toNat < 2 ^ 63 ∧ before.toNat < 2 ^ 63 := by
  obtain ⟨size, given, same⟩ := Option.map_eq_some_iff.mp paged
  obtain ⟨rfl, rfl⟩ := Prod.mk.inj same
  simp only [Query.check] at checked
  split at checked
  · cases checked
  · obtain ⟨_, page, _⟩ := Result.bind_eq_ok.mp checked
    unfold Query.checkPage at page
    split at page
    · cases page
    · cases page
    · cases page
    · next stored _ =>
        cases stored.symm.trans given
        simp only at page
        split at page
        · next fits =>
            obtain ⟨sizeFits, beforeFits⟩ := fits
            refine ⟨sizeFits, ?_⟩
            rw [max_one_toNat_sub, UInt64.toNat_ofNat']
            omega
        · cases page
    · next absent => cases absent.symm.trans given

namespace Statement

theorem binds_of_lt {st : Statement} {index : Nat} {n : UInt64} (small : n.toNat < 2 ^ 63)
    (bound : st.params[index]? = some (.ofUInt64 n)) : st.Binds (index + 1) n := by
  refine ⟨Nat.succ_pos index, Int64.ofNat n.toNat, ?_, Int64.toInt_ofNat_of_lt small⟩
  rw [Nat.add_sub_cancel, bound, Value.ofUInt64, if_pos small]

/-- Segments one of which is for the window show the query's page. -/
theorem shows_of_pagination {shape : Shape} {query : Query} {batch : List Value}
    (fits : ∀ size before, query.window = some (size, before) →
      size.toNat < 2 ^ 63 ∧ before.toNat < 2 ^ 63)
    (earlier later : List Segment) (noneEarlier : .pagination ∉ earlier)
    (noneLater : .pagination ∉ later) {f : Fragment}
    (rendered : renderAll (Segment.render shape query batch) 1 (earlier ++ .pagination :: later) =
      .ok f) : (ofFragment f).Shows query.window := by
  obtain ⟨first, here, last, before, middle, after, rfl⟩ := renderAll_around rendered
  have quietFirst := renderAll_quiet noneEarlier before
  have quietLast := renderAll_quiet noneLater after
  cases middle
  unfold Clause.pagination
  cases window : query.window with
  | none =>
      refine Pieces.unlimited_of_quiet ?_
      exact Pieces.quiet_append.mpr ⟨quietFirst, quietLast⟩
  | some w =>
      obtain ⟨size, skipped⟩ := w
      obtain ⟨sizeFits, skippedFits⟩ := fits size skipped window
      have start : first.next 1 = first.params.length + 1 := Nat.add_comm 1 _
      refine ⟨first.pieces, last.pieces, first.next 1, first.next 1 + 1, ?_,
        Pieces.unlimited_of_quiet quietFirst, Pieces.unlimited_of_quiet quietLast, ?_, ?_⟩
      · exact (List.append_assoc _ _ _).symm
      · rw [start]
        refine binds_of_lt sizeFits ?_
        change (first.params ++ ([_, _] ++ last.params))[first.params.length]? = _
        simp
      · rw [start]
        refine binds_of_lt skippedFits ?_
        change (first.params ++ ([_, _] ++ last.params))[first.params.length + 1]? = _
        simp

/-- A statement that is rendered anew shows the query's page if it is the first one or lateral. -/
theorem anew_shows {p : Plan} {k : Nat} {shape : Shape} (shaped : Shape.ofPlan p k = .ok shape)
    {query : Query} (fits : ∀ size before, query.window = some (size, before) →
      size.toNat < 2 ^ 63 ∧ before.toNat < 2 ^ 63)
    {batch : List Value} {st : Statement} (rendered : anew p k query batch = .ok st) :
    st.Shows (if shape.root.isRoot = true ∨ shape.isLateral = true then query.window else none) := by
  rw [anew, shaped, Result.ok_bind] at rendered
  obtain ⟨f, all, rendered⟩ := Result.bind_eq_ok.mp rendered
  cases rendered
  cases lateral : shape.isLateral with
  | true =>
      rw [if_pos (.inr rfl)]
      rw [lateral] at all
      exact shows_of_pagination fits [.head, .filter, .orderBy]
        [.lateralClose, .joins, .linkedKey, .orderBy] (by decide) (by decide) all
  | false =>
      cases isRoot : shape.root.isRoot with
      | true =>
          rw [if_pos (.inl rfl)]
          rw [lateral, isRoot] at all
          exact shows_of_pagination fits [.head, .joins, .filter, .orderBy] [] (by decide) (by decide)
            all
      | false =>
          rw [if_neg (by simp)]
          rw [lateral, isRoot] at all
          have quiet : Quiet f.pieces := renderAll_quiet (by decide) all
          exact Pieces.unlimited_of_quiet quiet

/-- A statement cannot show a page and no page. -/
theorem Shows.not_unlimited {st : Statement} {w : UInt64 × UInt64} (shows : st.Shows (some w)) :
    ¬Unlimited st.pieces := by
  obtain ⟨first, last, limit, offset, split, _⟩ := shows
  intro unlimited
  apply unlimited.limit
  refine ⟨tokens first ++ [.letter ' '], [.letter ' ', .placeholder limit] ++
    " OFFSET ".toList.map .letter ++ [.placeholder offset] ++ tokens last, ?_⟩
  rw [split]
  simp [windowClause]

/-- Where a query's page is shown on some condition, and else none, it is shown unless there is one and the
condition fails. -/
theorem Shows.window_iff {st : Statement} {query : Query} {placed : Prop} [Decidable placed]
    (shows : st.Shows (if placed then query.window else none)) :
    st.Shows query.window ↔ (query.isPaginated = true → placed) := by
  constructor
  · intro own paged
    obtain ⟨size, isSize⟩ := Option.isSome_iff_exists.mp paged
    by_contra nowhere
    rw [if_neg nowhere] at shows
    rw [Query.window, isSize] at own
    exact own.not_unlimited shows
  · intro kept
    cases paged : query.isPaginated with
    | true => simpa only [if_pos (kept paged)] using shows
    | false =>
        have none : query.window = none := by
          rw [Query.window, Option.map_eq_none_iff]
          simpa [Query.isPaginated] using paged
        rw [none] at shows ⊢
        simpa using shows

end Statement

namespace Memo

/-- The page of an accepted query is that of the root's query from then on, also where the query is taken
for the one that is there already. -/
theorem setQuery_window {m next : Memo} {query : Query} (accepted : m.setQuery query = .ok next) :
    next.rootQuery.window = query.window := by
  simp only [setQuery] at accepted
  obtain ⟨_, _, accepted⟩ := Result.bind_eq_ok.mp accepted
  obtain ⟨_, _, accepted⟩ := Result.bind_eq_ok.mp accepted
  split at accepted
  · cases accepted
  · cases accepted
    split
    · next same =>
        change Query.equal _ _ = true at same
        simp only [Query.equal, Bool.and_eq_true, beq_iff_eq] at same
        rw [Query.window, Query.window, same.1.2, same.2]
    · rfl

theorem after_setBatch_rootQuery (m : Memo) (batches : List (List Value)) :
    (m.after (batches.map .setBatch)).rootQuery = m.rootQuery := by
  induction batches generalizing m with
  | nil => rfl
  | cons batch rest ih => exact (ih (m.setBatch batch)).trans (setBatch_rootQuery m batch)

/-- Calls after an accepted query are calls after the ones before it and this query. -/
theorem after_setQuery {m next : Memo} {calls : List Call} {query : Query}
    (accepted : (m.after calls).setQuery query = .ok next) (later : List Call) :
    next.after later = m.after (calls ++ .setQuery query :: later) := by
  rw [after_append, ← step_of_accepted accepted]
  rfl

section Plans

variable {s : Schema} {p : Plan} {plural : Bool} {request : Request} {k : Nat}

/-- After any calls and an accepted query, the next statement shows the page of this query if it is the
plan's first statement or pages the records of each parent, and otherwise it shows none. So the page is
dropped exactly where there is one and the statement has no place for it. -/
theorem shows_accepted (declared : s.Declared) {format : String}
    (built : Plan.build s.catalog format plural request = .ok p) {m : Memo}
    (fresh : ofPlan p k = .ok m) (calls : List Call) {query : Query} {next : Memo}
    (accepted : (m.after calls).setQuery query = .ok next) (batches : List (List Value))
    (bound : k ≠ 0 → (next.after (batches.map .setBatch)).batch ≠ []) :
    ∃ st, (next.after (batches.map .setBatch)).statement.1 = .ok st ∧
      st.Shows (if k = 0 ∨ m.lateral = true then query.window else none) ∧
      (st.Shows query.window ↔ (query.isPaginated = true → k = 0 ∨ m.lateral = true)) := by
  have valid := Plan.build_over declared built
  obtain ⟨shape, shaped, begun⟩ := Result.bind_eq_ok.mp fresh
  have fits := Shape.fits_of_ofPlan valid declared.sound shaped
  have history := after_setQuery accepted (batches.map .setBatch)
  have coherent := (coherent_ofPlan fresh).after (calls ++ .setQuery query :: batches.map .setBatch)
  obtain ⟨st, given⟩ : ∃ st, (next.after (batches.map .setBatch)).statement.1 = .ok st := by
    rw [history] at bound ⊢
    exact statement_after_succeeds valid declared.sound fits.query fresh _ bound
  have rendered := given
  rw [history, coherent.statement.1, ← history] at rendered
  have window : (next.after (batches.map .setBatch)).rootQuery.window = query.window := by
    rw [after_setBatch_rootQuery, setQuery_window accepted]
  obtain ⟨⟨root, _, checked⟩, _⟩ := setQuery_cases accepted
  have placed : (shape.root.isRoot = true ∨ shape.isLateral = true) ↔ (k = 0 ∨ m.lateral = true) := by
    cases begun
    rcases fits.hung with ⟨first, isRoot, _⟩ | ⟨below, noRoot, _⟩
    · simp [first, isRoot]
    · simp [below, noRoot]
  have shows : st.Shows (if k = 0 ∨ m.lateral = true then query.window else none) := by
    have anew := Statement.anew_shows shaped
      (fun size before paged => window_lt_of_check checked (window ▸ paged)) rendered
    rw [window] at anew
    simpa only [placed] using anew
  exact ⟨st, given, shows, shows.window_iff⟩

/-- The third page of five articles for each of two users, asked of a statement that was planned for the
first ten and has been rendered before. -/
theorem shows_accepted_firstArticles : ∃ plan m next st,
    Plan.build Schema.blog.catalog "user" true firstArticles = .ok plan ∧ ofPlan plan 1 = .ok m ∧
      (m.after [.setBatch [.int 1], .statement]).setQuery ⟨none, [], some 3, some 5⟩ = .ok next ∧
      (next.after [.setBatch [.int 1, .int 2]]).statement.1 = .ok st ∧ st.Shows (some (5, 10)) := by
  have some : ∃ plan m next, Plan.build Schema.blog.catalog "user" true firstArticles = .ok plan ∧
      ofPlan plan 1 = .ok m ∧
      (m.after [.setBatch [.int 1], .statement]).setQuery ⟨none, [], some 3, some 5⟩ = .ok next ∧
      (next.after [.setBatch [.int 1, .int 2]]).batch ≠ [] ∧ m.lateral = true :=
    ⟨_, _, _, rfl, rfl, rfl, List.cons_ne_nil _ _, rfl⟩
  obtain ⟨plan, m, next, built, fresh, accepted, bound, lateral⟩ := some
  obtain ⟨st, given, shows, _⟩ := shows_accepted Schema.blog_declared built fresh _ accepted
    [[.int 1, .int 2]] fun _ => bound
  rw [if_pos (.inr lateral)] at shows
  exact ⟨plan, m, next, st, built, fresh, accepted, given, shows⟩

/-- Users with all their articles. -/
def allArticles : Request :=
  ⟨some ["name"], [("articles", ⟨some ["title"], [], .empty⟩)], .empty⟩

/-- The second page of ten articles is accepted by a statement for all articles of some users, and is
not shown. -/
theorem accepted_not_shown : ∃ plan m next st,
    Plan.build Schema.blog.catalog "user" true allArticles = .ok plan ∧ ofPlan plan 1 = .ok m ∧
      m.setQuery ⟨none, [], some 2, some 10⟩ = .ok next ∧
      (next.after [.setBatch [.int 1]]).statement.1 = .ok st ∧
      ¬st.Shows (Query.window ⟨none, [], some 2, some 10⟩) := by
  have some : ∃ plan m next st, Plan.build Schema.blog.catalog "user" true allArticles = .ok plan ∧
      ofPlan plan 1 = .ok m ∧ m.setQuery ⟨none, [], some 2, some 10⟩ = .ok next ∧
      (next.after [.setBatch [.int 1]]).statement.1 = .ok st ∧ st.params = [.int 1] :=
    ⟨_, _, _, _, rfl, rfl, rfl, rfl, rfl⟩
  obtain ⟨plan, m, next, st, built, fresh, accepted, given, params⟩ := some
  refine ⟨plan, m, next, st, built, fresh, accepted, given, ?_⟩
  rintro ⟨_, _, limit, _, _, _, _, ⟨_, i, bound, ten⟩, _⟩
  -- the one value that is bound is the user, not the size of the page
  rw [params, List.getElem?_singleton] at bound
  split at bound
  · cases bound
    exact absurd ten (by decide)
  · cases bound

end Plans

end Memo

end NestedQuery.Sql
