/- The arithmetic of pages: in 64-bit words it is exact for every query that is accepted, and the pages of
one size show any rows one after another. -/
import NestedQuery.Proofs.Acceptance
import NestedQuery.Proofs.Window

namespace NestedQuery

section Words

variable {a b c : UInt64}

/-- A difference of words, unless it is below 0. -/
def subtracted? (a b : UInt64) : Option UInt64 := if b ≤ a then some (a - b) else none

/-- A product of words, unless it is too great for one. -/
def multiplied? (a b : UInt64) : Option UInt64 :=
  if a.toNat * b.toNat < 2 ^ 64 then some (a * b) else none

theorem subtracted?_eq_some (fits : b.toNat ≤ a.toNat) :
    ∃ c, subtracted? a b = some c ∧ c.toNat = a.toNat - b.toNat := by
  have least : b ≤ a := UInt64.le_iff_toNat_le.mpr fits
  refine ⟨a - b, if_pos least, ?_⟩
  exact UInt64.toNat_sub_of_le a b least

theorem multiplied?_eq_some_iff :
    multiplied? a b = some c ↔ c.toNat = a.toNat * b.toNat := by
  unfold multiplied?
  split
  · next small =>
      rw [Option.some.injEq, ← UInt64.toNat_inj, UInt64.toNat_mul, Nat.mod_eq_of_lt small]
      exact eq_comm
  · next great =>
      constructor
      · exact nofun
      · intro same
        have := c.toNat_lt
        omega

end Words

namespace Query

/-- The page of a query, computed in words. There is no result if one of the steps has none. -/
def windowInWords? (q : Query) : Option (Option (UInt64 × UInt64)) :=
  match q.pageSize with
  | none => some none
  | some size => do
    let earlier ← subtracted? (max (q.page.getD 1) 1) 1
    let before ← multiplied? earlier size
    return some (size, before)

/-- The check of a page, computed in words. A product that is too great is refused, but a difference
below 0 would be no result. -/
def checkPageInWords? (q : Query) (path : String) : Option (Result Unit) :=
  match q.page, q.pageSize with
  | some _, none => some (refuse (.pageWithoutSize path))
  | some 0, _ => some (refuse (.pageZero path))
  | _, some 0 => some (refuse (.pageSizeZero path))
  | page, some size => do
    let earlier ← subtracted? (page.getD 1) 1
    let counts (n : UInt64) : Bool := n.toNat < 2 ^ 63
    return if counts size && (multiplied? earlier size).any counts then .ok ()
      else refuse (.pageOutOfRange path (page.getD 1).toNat size.toNat)
  | none, none => some (.ok ())

section Given

variable {q : Query} {size : UInt64}

/-- The last check, of a page and a size that are not 0. -/
theorem checkPage_of_ne_zero (given : q.pageSize = some size) (positive : size ≠ 0)
    (notZero : q.page ≠ some 0) (path : String) : q.checkPage path =
      if size.toNat < 2 ^ 63 ∧ ((q.page.getD 1).toNat - 1) * size.toNat < 2 ^ 63 then .ok ()
      else refuse (.pageOutOfRange path (q.page.getD 1).toNat size.toNat) := by
  unfold checkPage
  split
  · next absent => cases given.symm.trans absent
  · next zero _ => exact absurd zero notZero
  · next zero _ => exact absurd (Option.some.inj (given.symm.trans zero)) positive
  · next other _ stored _ =>
      cases given.symm.trans stored
      rfl
  · next absent => cases given.symm.trans absent

theorem one_le_page (notZero : q.page ≠ some 0) : 1 ≤ (q.page.getD 1).toNat := by
  cases stored : q.page with
  | none => decide
  | some page =>
      apply one_le_toNat
      rintro rfl
      exact notZero stored

/-- What comes before a page, as a number and in words. -/
theorem earlier_in_words (notZero : q.page ≠ some 0) :
    ∃ earlier, subtracted? (q.page.getD 1) 1 = some earlier ∧
      earlier.toNat = (q.page.getD 1).toNat - 1 :=
  subtracted?_eq_some (one_le_page notZero)

end Given

/-- On no path is 1 taken from a page 0. -/
theorem checkPageInWords?_eq (q : Query) (path : String) :
    q.checkPageInWords? path = some (q.checkPage path) := by
  unfold checkPageInWords?
  split
  · next given absent => simp only [checkPage, given, absent]
  · next given sized =>
      obtain ⟨size, stored⟩ := Option.ne_none_iff_exists'.mp sized
      simp only [checkPage, given, stored]
  · next given notZero =>
      cases stored : q.page with
      | none => simp only [checkPage, stored, given]
      | some page =>
          rw [stored] at notZero
          simp [checkPage, stored, given]
  · next size positive given notZero =>
      obtain ⟨earlier, subtracted, value⟩ := earlier_in_words notZero
      have counts : (multiplied? earlier size).any (fun n => decide (n.toNat < 2 ^ 63)) = true ↔
          ((q.page.getD 1).toNat - 1) * size.toNat < 2 ^ 63 := by
        rw [Option.any_eq_true, ← value]
        constructor
        · rintro ⟨before, product, small⟩
          rw [← multiplied?_eq_some_iff.mp product]
          exact of_decide_eq_true small
        · intro small
          obtain ⟨before, product⟩ : ∃ before, multiplied? earlier size = some before :=
            ⟨_, if_pos (by omega)⟩
          refine ⟨before, product, ?_⟩
          rw [multiplied?_eq_some_iff.mp product]
          exact decide_eq_true small
      rw [checkPage_of_ne_zero given positive notZero, subtracted]
      simp only [Option.bind_eq_bind, Option.bind_some, Bool.and_eq_true, decide_eq_true_eq, counts]
      rfl
  · next noPage noSize => simp only [checkPage, noPage, noSize]

/-- One page of those that a query asks for. -/
def atPage (q : Query) (number : UInt64) : Query := { q with page := some number }

/-- The rows of a query's page, or all rows without one. -/
def shown {α : Type u} (q : Query) (rows : List α) : List α :=
  match q.window with
  | none => rows
  | some (size, before) => (rows.drop before.toNat).take size.toNat

/-- How many rows come before a query's page if each page has this size. -/
def rowsBefore (q : Query) (size : UInt64) : Int := ((q.page.getD 1).toNat - 1) * size.toNat

/-- What holds of a page that is accepted. Each step in words gives what it gives of the numbers. -/
structure ExactPage (q : Query) (path : String) : Prop where
  checked : q.checkPageInWords? path = some (.ok ())
  computed : q.windowInWords? = some q.window
  absent : q.window = none ↔ q.pageSize = none
  window : ∀ size, q.pageSize = some size → ∃ earlier before,
    subtracted? (q.page.getD 1) 1 = some earlier ∧ multiplied? earlier size = some before ∧
      q.window = some (size, before) ∧ (before.toNat : Int) = q.rowsBefore size
  unbound : q.pageSize = none → ∀ start, (Sql.Clause.pagination q start).params = []
  bound : ∀ size, q.pageSize = some size → ∀ start, ∃ limit offset : Int64,
    (Sql.Clause.pagination q start).params = [.int limit, .int offset] ∧
      limit.toInt = size.toNat ∧ offset.toInt = q.rowsBefore size

section Countable

variable {q : Query} {size : UInt64}

theorem Countable.ne_zero (countable : q.Countable) : q.page ≠ some 0 := by
  intro zero
  exact absurd (countable.page 0 zero) (by decide)

theorem Countable.before_lt (countable : q.Countable) (given : q.pageSize = some size) :
    ((q.page.getD 1).toNat - 1) * size.toNat < 2 ^ 63 := by
  cases stored : q.page with
  | none => simp
  | some page =>
      have before := countable.before page size stored given
      rw [Option.getD_some]
      omega

theorem max_one_eq {page : UInt64} (first : 1 ≤ page.toNat) : max page 1 = page := by
  change (if page ≤ 1 then (1 : UInt64) else page) = page
  split
  · next small =>
      have := UInt64.le_iff_toNat_le.mp small
      apply UInt64.toNat_inj.mp
      change page.toNat ≤ 1 at this
      change 1 = page.toNat
      omega
  · rfl

/-- The check and the window come to one number of rows before the page, without leaving the words. -/
theorem Countable.steps (countable : q.Countable) (given : q.pageSize = some size) :
    ∃ earlier before, subtracted? (q.page.getD 1) 1 = some earlier ∧
      multiplied? earlier size = some before ∧ q.window = some (size, before) ∧
      before.toNat = ((q.page.getD 1).toNat - 1) * size.toNat := by
  obtain ⟨earlier, subtracted, value⟩ := earlier_in_words countable.ne_zero
  have small := countable.before_lt given
  have exact : (UInt64.ofNat (earlier.toNat * size.toNat)).toNat = earlier.toNat * size.toNat := by
    rw [UInt64.toNat_ofNat', value]
    omega
  refine ⟨earlier, _, subtracted, multiplied?_eq_some_iff.mpr exact, ?_, by rw [exact, value]⟩
  rw [window, given, Option.map_some, max_one_eq (one_le_page countable.ne_zero)]
  have unsaturated : min (((q.page.getD 1).toNat - 1) * size.toNat) (2 ^ 64 - 1) =
      ((q.page.getD 1).toNat - 1) * size.toNat := Nat.min_eq_left (by omega)
  simp only [unsaturated, value]

theorem Countable.windowInWords?_eq (countable : q.Countable) :
    q.windowInWords? = some q.window := by
  unfold windowInWords?
  cases given : q.pageSize with
  | none =>
      rw [window, given]
      rfl
  | some size =>
      obtain ⟨earlier, before, subtracted, product, same, _⟩ := countable.steps given
      rw [max_one_eq (one_le_page countable.ne_zero), same, subtracted]
      simp only [Option.bind_eq_bind, Option.bind_some, product]
      rfl

theorem Countable.params (countable : q.Countable) (given : q.pageSize = some size) (start : Nat) :
    ∃ limit offset : Int64, (Sql.Clause.pagination q start).params = [.int limit, .int offset] ∧
      limit.toInt = size.toNat ∧ offset.toInt = (((q.page.getD 1).toNat - 1) * size.toNat : Nat) := by
  obtain ⟨earlier, before, _, _, paged, value⟩ := countable.steps given
  have sizeFits : size.toNat < 2 ^ 63 := by
    have := (countable.size size given).2
    omega
  have beforeFits : before.toNat < 2 ^ 63 := by
    rw [value]
    exact countable.before_lt given
  refine ⟨.ofNat size.toNat, .ofNat before.toNat, ?_, Int64.toInt_ofNat_of_lt sizeFits, ?_⟩
  · simp only [Sql.Clause.pagination, paged, Value.ofUInt64, if_pos sizeFits, if_pos beforeFits]
  · rw [Int64.toInt_ofNat_of_lt beforeFits, value]

theorem rowsBefore_eq (notZero : q.page ≠ some 0) :
    q.rowsBefore size = (((q.page.getD 1).toNat - 1) * size.toNat : Nat) := by
  have first := one_le_page notZero
  rw [rowsBefore, Int.natCast_mul, Int.natCast_sub first]
  rfl

theorem Countable.exactPage (countable : q.Countable) {path : String}
    (checked : q.checkPage path = .ok ()) : q.ExactPage path where
  checked := by rw [checkPageInWords?_eq, checked]
  computed := countable.windowInWords?_eq
  absent := by rw [window, Option.map_eq_none_iff]
  window := by
    intro size given
    obtain ⟨earlier, before, subtracted, product, paged, value⟩ := countable.steps given
    refine ⟨earlier, before, subtracted, product, paged, ?_⟩
    rw [value, rowsBefore_eq countable.ne_zero]
  unbound := by
    intro absent start
    simp only [Sql.Clause.pagination, window, absent, Option.map_none]
    rfl
  bound := by
    intro size given start
    rw [rowsBefore_eq countable.ne_zero]
    exact countable.params given start

end Countable

section Refused

variable {q : Query} {path : String}

theorem checkPage_outOfRange_iff (q : Query) (path : String) :
    (∃ page size, q.checkPage path = refuse (.pageOutOfRange path page size)) ↔
      q.page ≠ some 0 ∧ ∃ size, q.pageSize = some size ∧
        (2 ^ 63 - 1 < size.toNat ∨ 2 ^ 63 - 1 < q.rowsBefore size) := by
  constructor
  · rintro ⟨number, count, refused⟩
    unfold checkPage at refused
    split at refused
    · cases refused
    · cases refused
    · cases refused
    · next size _ given notZero =>
        refine ⟨notZero, size, given, ?_⟩
        rw [rowsBefore_eq notZero]
        simp only at refused
        split at refused
        · cases refused
        · next exceeds => omega
    · cases refused
  · rintro ⟨notZero, size, given, exceeds⟩
    rw [rowsBefore_eq notZero] at exceeds
    have positive : size ≠ 0 := by
      rintro rfl
      rcases exceeds with great | great
      · exact absurd great (by decide)
      · rw [UInt64.toNat_zero, Nat.mul_zero] at great
        exact absurd great (by decide)
    rw [checkPage_of_ne_zero given positive notZero, if_neg (by omega)]
    exact ⟨_, _, rfl⟩

/-- Fields that are not there are refused as such. -/
theorem later_ne_outOfRange (format : Format) {page size : Nat} : (do
      q.checkSort format path
      q.checkFilter format path) ≠ refuse (.pageOutOfRange path page size) := by
  intro refused
  unfold checkSort at refused
  split at refused
  · cases refused
  · rw [Result.ok_bind, checkFilter] at refused
    split at refused
    · rw [Filter.check] at refused
      split at refused
      · cases refused
      · cases refused
    · cases refused

/-- Among many records a query is refused for its range exactly if its page is not 0, and its size or the
rows before its page are too many to be counted. -/
theorem check_outOfRange_iff (format : Format) :
    (∃ page size, q.check format true path = refuse (.pageOutOfRange path page size)) ↔
      q.page ≠ some 0 ∧ ∃ size, q.pageSize = some size ∧
        (2 ^ 63 - 1 < size.toNat ∨ 2 ^ 63 - 1 < q.rowsBefore size) := by
  rw [← checkPage_outOfRange_iff q path, check_eq]
  have single : q.checkSingle true path = .ok () := rfl
  rw [single, Result.ok_bind]
  cases paged : q.checkPage path with
  | error e => rfl
  | ok _ =>
      apply iff_of_false
      · rintro ⟨page, size, refused⟩
        exact later_ne_outOfRange format refused
      · rintro ⟨page, size, refused⟩
        cases refused

end Refused

section Tiling

variable {α : Type u} {q : Query} {size : UInt64}

theorem flatMap_windows (rows : List α) (size k : Nat) :
    (List.range k).flatMap (fun i => (rows.drop (i * size)).take size) = rows.take (k * size) := by
  induction k with
  | zero => simp
  | succ k ih =>
      rw [List.range_succ, List.flatMap_append, ih, List.flatMap_singleton, Nat.succ_mul]
      exact (List.take_add ..).symm

/-- The pages before one that is accepted are accepted too. -/
theorem accepted_before {format : Format} {path : String} {last number : UInt64}
    (accepted : (q.atPage last).check format true path = .ok ()) (first : 1 ≤ number.toNat)
    (before : number.toNat ≤ last.toNat) : (q.atPage number).check format true path = .ok () := by
  have fits := ((q.atPage last).check_decides format true path).succeeds_iff.mp ⟨(), accepted⟩
  obtain ⟨done, checked⟩ := ((q.atPage number).check_decides format true path).succeeds_iff.mpr {
    single := nofun
    countable := {
      sized := fun _ => fits.countable.sized rfl
      page := by
        rintro _ ⟨⟩
        exact first
      size := fits.countable.size
      before := by
        rintro _ size ⟨⟩ given
        have bound := fits.countable.before last size rfl given
        have fewer : (number.toNat - 1) * size.toNat ≤ (last.toNat - 1) * size.toNat :=
          Nat.mul_le_mul_right _ (by omega)
        omega }
    sort := fits.sort
    filter := fits.filter }
  exact checked

theorem shown_atPage {number : UInt64} (countable : (q.atPage number).Countable)
    (given : q.pageSize = some size) (rows : List α) : (q.atPage number).shown rows =
      (rows.drop ((number.toNat - 1) * size.toNat)).take size.toNat := by
  obtain ⟨_, before, _, _, paged, value⟩ := countable.steps given
  rw [shown, paged]
  simp only [value]
  rfl

/-- Up to one that is accepted, the pages of one size show the first rows, each once and in their order. -/
theorem pages_tile {format : Format} {path : String} {last : UInt64} (given : q.pageSize = some size)
    (accepted : (q.atPage last).check format true path = .ok ()) (rows : List α) :
    (List.range last.toNat).flatMap (fun i => (q.atPage (.ofNat (i + 1))).shown rows) =
      rows.take (last.toNat * size.toNat) := by
  rw [← flatMap_windows]
  apply List.flatMap_congr
  intro i inside
  have number : (UInt64.ofNat (i + 1)).toNat = i + 1 := by
    have := last.toNat_lt
    have := List.mem_range.mp inside
    rw [UInt64.toNat_ofNat']
    omega
  have inRange := List.mem_range.mp inside
  have passed : (q.atPage (.ofNat (i + 1))).check format true path = .ok () := by
    apply accepted_before accepted
    · omega
    · omega
  have fits := (check_decides _ format true path).succeeds_iff.mp ⟨(), passed⟩
  rw [shown_atPage fits.countable given rows, number, Nat.add_sub_cancel]

end Tiling

/-- A page of many records that is accepted is computed exactly. One is refused for its range exactly if it
is not page 0 and cannot be counted. The pages of one size show any rows one after another. -/
theorem paging_exact (q : Query) (format : Format) (path : String) :
    (q.check format true path = .ok () → q.ExactPage path) ∧
      ((∃ page size, q.check format true path = refuse (.pageOutOfRange path page size)) ↔
        q.page ≠ some 0 ∧ ∃ size, q.pageSize = some size ∧
          (2 ^ 63 - 1 < size.toNat ∨ 2 ^ 63 - 1 < q.rowsBefore size)) ∧
      ∀ size last, q.pageSize = some size → (q.atPage last).check format true path = .ok () →
        (∀ number : UInt64, 1 ≤ number.toNat → number.toNat ≤ last.toNat →
          (q.atPage number).check format true path = .ok ()) ∧
        ∀ {α : Type u} (rows : List α),
          (List.range last.toNat).flatMap (fun i => (q.atPage (.ofNat (i + 1))).shown rows) =
            rows.take (last.toNat * size.toNat) := by
  refine ⟨?_, check_outOfRange_iff format, ?_⟩
  · intro accepted
    have fits := (q.check_decides format true path).succeeds_iff.mp ⟨(), accepted⟩
    have passed := (q.checkPage_decides path).succeeds_iff.mpr fits.countable
    obtain ⟨_, checked⟩ := passed
    exact fits.countable.exactPage checked
  · intro size last given accepted
    exact ⟨fun _ => accepted_before accepted, pages_tile given accepted⟩

/-- The third page of articles. -/
def thirdPage (size : UInt64) : Query := ⟨none, [⟨"id", .desc⟩], some 3, some size⟩

theorem paging_exact_thirdPage :
    (thirdPage 20).ExactPage "article" ∧
      (∃ page size, (thirdPage 4611686018427387904).check Schema.Blog.article true "article" =
        refuse (.pageOutOfRange "article" page size)) ∧
      ∀ rows : List Nat, (List.range 3).flatMap
        (fun i => ((thirdPage 20).atPage (.ofNat (i + 1))).shown rows) = rows.take 60 := by
  have accepted : (thirdPage 20).check Schema.Blog.article true "article" = .ok () := rfl
  obtain ⟨exact, _, tiled⟩ := paging_exact.{0} (thirdPage 20) Schema.Blog.article "article"
  obtain ⟨_, refused, _⟩ :=
    paging_exact.{0} (thirdPage 4611686018427387904) Schema.Blog.article "article"
  refine ⟨exact accepted, refused.mpr ⟨by decide, _, rfl, .inr (by decide)⟩, ?_⟩
  exact (tiled 20 3 rfl accepted).2

/-- A page 0 is refused as such, also where its size alone is too great. -/
theorem page_zero_not_out_of_range : ¬∀ (q : Query) (format : Format) (path : String),
    (∃ page size, q.check format true path = refuse (.pageOutOfRange path page size)) ↔
      ∃ size, q.pageSize = some size ∧
        (2 ^ 63 - 1 < size.toNat ∨ 2 ^ 63 - 1 < q.rowsBefore size) := by
  intro always
  let q : Query := ⟨none, [], some 0, some 9223372036854775808⟩
  have refused : q.check Schema.Blog.user true "user" = refuse (.pageZero "user") := rfl
  obtain ⟨page, size, outOfRange⟩ :=
    (always q Schema.Blog.user "user").mpr ⟨_, rfl, .inl (by decide)⟩
  cases refused.symm.trans outOfRange

end Query

end NestedQuery
