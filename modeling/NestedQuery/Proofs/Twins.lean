/- Values that are equal without being the same, and what is kept in place of what is given because of
them: by a statement, and by a cache of plans. -/
import NestedQuery.Proofs.CacheHistory
import NestedQuery.Proofs.Likeness

namespace NestedQuery

open Value (AllAlike)

namespace Json

def Number.unsigned : Number → Number
  | .whole i => .whole i
  | .real x => .real (if x.isZero then .zero else x)

mutual

/-- A document whose zeros have lost their signs. -/
def unsigned : Json → Json
  | .null => .null
  | .bool b => .bool b
  | .number n => .number n.unsigned
  | .text s => .text s
  | .list items => .list (unsignedItems items)
  | .object members => .object (unsignedMembers members)

def unsignedItems : List Json → List Json
  | [] => []
  | item :: rest => unsigned item :: unsignedItems rest

def unsignedMembers : List (String × Json) → List (String × Json)
  | [] => []
  | (name, value) :: rest => (name, unsigned value) :: unsignedMembers rest

end

theorem Number.unsigned_of_equal {x y : Number} (same : x.equal y = true) :
    x.unsigned = y.unsigned := by
  cases x with
  | whole i =>
      cases y with
      | whole j => exact congrArg Number.whole (eq_of_beq same)
      | real _ => cases same
  | real r =>
      cases y with
      | whole _ => cases same
      | real s =>
          simp only [Number.equal, Binary64.equal, Bool.and_eq_true, Bool.or_eq_true,
            beq_iff_eq] at same
          rcases same.2 with rfl | ⟨zeroR, zeroS⟩
          · rfl
          · simp only [unsigned, zeroR, zeroS, if_true]

mutual

/-- Equal documents differ at most in the signs of their zeros. -/
theorem unsigned_of_equal : ∀ (a b : Json), a.equal b = true → a.unsigned = b.unsigned
  | .null, b, same => by
      cases b with
      | null => rfl
      | _ => cases same
  | .bool x, b, same => by
      cases b with
      | bool y => exact congrArg Json.bool (eq_of_beq same)
      | _ => cases same
  | .number x, b, same => by
      cases b with
      | number y => exact congrArg Json.number (Number.unsigned_of_equal same)
      | _ => cases same
  | .text s, b, same => by
      cases b with
      | text t => exact congrArg Json.text (eq_of_beq same)
      | _ => cases same
  | .list xs, b, same => by
      cases b with
      | list ys => exact congrArg Json.list (unsignedItems_of_equal xs ys same)
      | _ => cases same
  | .object xs, b, same => by
      cases b with
      | object ys => exact congrArg Json.object (unsignedMembers_of_equal xs ys same)
      | _ => cases same

theorem unsignedItems_of_equal : ∀ (xs ys : List Json), equalItems xs ys = true →
    unsignedItems xs = unsignedItems ys
  | [], [], _ => rfl
  | x :: xs, y :: ys, same => by
      rw [equalItems, Bool.and_eq_true] at same
      rw [unsignedItems, unsignedItems, unsigned_of_equal x y same.1,
        unsignedItems_of_equal xs ys same.2]

theorem unsignedMembers_of_equal : ∀ (xs ys : List (String × Json)), equalMembers xs ys = true →
    unsignedMembers xs = unsignedMembers ys
  | [], [], _ => rfl
  | (m, x) :: xs, (n, y) :: ys, same => by
      simp only [equalMembers, Bool.and_eq_true, beq_iff_eq] at same
      rw [unsignedMembers, unsignedMembers, same.1.1, unsigned_of_equal x y same.1.2,
        unsignedMembers_of_equal xs ys same.2]

end

end Json

namespace Value

/-- Two values that are equal without being the same. -/
inductive Twins : Value → Value → Prop
  | zeros {x y : Binary64} (zeroX : x.isZero = true) (zeroY : y.isZero = true) (differ : x ≠ y) :
      Twins (.float x) (.float y)
  | nans {x y : Binary64} (nanX : x.isNaN = true) (nanY : y.isNaN = true) (differ : x ≠ y) :
      Twins (.float x) (.float y)
  /-- An integer and a float that counts as it. For the greatest integer this is the next power of two. -/
  | intFloat {i : Int64} {x : Binary64} (counts : integral? x = some i) : Twins (.int i) (.float x)
  | floatInt {i : Int64} {x : Binary64} (counts : integral? x = some i) : Twins (.float x) (.int i)
  | json {j k : Json} (unsigned : j.unsigned = k.unsigned) (differ : j ≠ k) :
      Twins (.json j) (.json k)

theorem Twins.ne {a b : Value} (twins : Twins a b) : a ≠ b := by
  cases twins with
  | zeros _ _ differ => exact fun same => differ (Value.float.inj same)
  | nans _ _ differ => exact fun same => differ (Value.float.inj same)
  | intFloat _ => exact nofun
  | floatInt _ => exact nofun
  | json _ differ => exact fun same => differ (Value.json.inj same)

theorem twins_of_beq {a b : Value} (equal : (a == b) = true) (differ : a ≠ b) : Twins a b := by
  cases same_iff.mp equal with
  | null => exact absurd rfl differ
  | int i => exact absurd rfl differ
  | text s => exact absurd rfl differ
  | bool b => exact absurd rfl differ
  | @float x y same =>
      have differ : x ≠ y := fun same => differ (congrArg Value.float same)
      simp only [Binary64.equal, Bool.or_eq_true, Bool.and_eq_true, beq_iff_eq] at same
      rcases same with ⟨_, same | ⟨zeroX, zeroY⟩⟩ | ⟨nanX, nanY⟩
      · exact absurd same differ
      · exact .zeros zeroX zeroY differ
      · exact .nans nanX nanY differ
  | intFloat counts => exact .intFloat counts
  | floatInt counts => exact .floatInt counts
  | json same =>
      exact .json (Json.unsigned_of_equal _ _ same) fun same => differ (congrArg Value.json same)

/-- Lists that are alike differ exactly where they hold twins. -/
theorem AllAlike.ne_iff {values others : List Value} (alike : AllAlike values others) :
    values ≠ others ↔ ∃ pair ∈ values.zip others, pair.1.Twins pair.2 := by
  induction alike with
  | nil => exact ⟨fun differ => absurd rfl differ, nofun⟩
  | @cons a b rest more head _ ih =>
      rw [List.zip_cons_cons, ne_eq, List.cons_eq_cons, not_and_or, ← ne_eq rest, ih]
      constructor
      · rintro (differ | ⟨pair, later, twins⟩)
        · exact ⟨(a, b), List.mem_cons_self, twins_of_beq (head.resolve_left differ) differ⟩
        · exact ⟨pair, List.mem_cons_of_mem _ later, twins⟩
      · rintro ⟨pair, member, twins⟩
        rcases List.mem_cons.mp member with rfl | later
        · exact .inl twins.ne
        · exact .inr ⟨pair, later, twins⟩

theorem AllAlike.append_inj {first rest others more : List Value} (alike : AllAlike first others)
    (same : first ++ rest = others ++ more) : first = others ∧ rest = more :=
  List.append_inj same alike.length_eq

end Value

/-- Two things have values that are alike one by one, and are the same if these are. -/
structure SameUpToValues {α : Type} (values : α → List Value) (x y : α) : Prop where
  alike : AllAlike (values x) (values y)
  same : values x = values y → x = y

/-- Two things are equal, but a value of one of them is only the twin of the one at its place in the
other. -/
def Confused {α : Type} [BEq α] (values : α → List Value) (x y : α) : Prop :=
  (x == y) = true ∧ ∃ pair ∈ (values x).zip (values y), pair.1.Twins pair.2

theorem confused_iff {α : Type} [BEq α] {values : α → List Value}
    (determined : ∀ x y : α, (x == y) = true → SameUpToValues values x y) {x y : α} :
    Confused values x y ↔ (x == y) = true ∧ x ≠ y := by
  refine and_congr_right fun equal => ?_
  obtain ⟨alike, same⟩ := determined x y equal
  rw [← alike.ne_iff]
  exact not_congr ⟨same, congrArg values⟩

/-- What is equal to what is kept is not put in its place, and so it is kept unless it is confused. -/
theorem unless_equal_iff {α : Type} [BEq α] {values : α → List Value}
    (determined : ∀ x y : α, (x == y) = true → SameUpToValues values x y) {given kept : α} :
    (if given == kept then kept else given) = given ↔ ¬Confused values given kept := by
  rw [confused_iff determined, not_and_not_right]
  split
  · next equal => exact ⟨fun same _ => same.symm, fun same => (same equal).symm⟩
  · next different => exact ⟨fun _ equal => absurd equal different, fun _ => rfl⟩

theorem valuesUpToValues (values others : List Value) (equal : (values == others) = true) :
    SameUpToValues id values others := ⟨Value.allAlike_of_beq equal, id⟩

namespace Filter

mutual

/-- The values that a filter compares with, in their order. -/
def values : Filter → List Value
  | .compare _ _ value => [value]
  | .isIn _ values => values
  | .isNull _ => []
  | .isNotNull _ => []
  | .like _ _ => []
  | .all filters => valuesOfAll filters
  | .any filters => valuesOfAll filters
  | .not filter => values filter

def valuesOfAll : List Filter → List Value
  | [] => []
  | f :: rest => values f ++ valuesOfAll rest

end

mutual

theorem sameUpToValues : ∀ f g : Filter, f.equal g = true → SameUpToValues values f g
  | .compare c m v, g, equal => by
      cases g with
      | compare d n w =>
          simp only [Filter.equal, Bool.and_eq_true, beq_iff_eq] at equal
          obtain ⟨⟨rfl, rfl⟩, equal⟩ := equal
          exact ⟨.cons (.inr equal) .nil, fun same => congrArg _ (List.singleton_inj.mp same)⟩
      | _ => cases equal
  | .isIn m vs, g, equal => by
      cases g with
      | isIn n ws =>
          simp only [Filter.equal, Bool.and_eq_true, beq_iff_eq] at equal
          obtain ⟨rfl, equal⟩ := equal
          exact ⟨Value.allAlike_of_beq equal, congrArg (Filter.isIn m)⟩
      | _ => cases equal
  | .isNull m, g, equal => by
      cases g with
      | isNull n => exact ⟨.nil, fun _ => congrArg Filter.isNull (eq_of_beq equal)⟩
      | _ => cases equal
  | .isNotNull m, g, equal => by
      cases g with
      | isNotNull n => exact ⟨.nil, fun _ => congrArg Filter.isNotNull (eq_of_beq equal)⟩
      | _ => cases equal
  | .like m a, g, equal => by
      cases g with
      | like n b =>
          simp only [Filter.equal, Bool.and_eq_true, beq_iff_eq] at equal
          obtain ⟨rfl, rfl⟩ := equal
          exact ⟨.nil, fun _ => rfl⟩
      | _ => cases equal
  | .all fs, g, equal => by
      cases g with
      | all gs =>
          obtain ⟨alike, same⟩ := sameUpToValuesOfAll fs gs equal
          exact ⟨alike, fun values => congrArg Filter.all (same values)⟩
      | _ => cases equal
  | .any fs, g, equal => by
      cases g with
      | any gs =>
          obtain ⟨alike, same⟩ := sameUpToValuesOfAll fs gs equal
          exact ⟨alike, fun values => congrArg Filter.any (same values)⟩
      | _ => cases equal
  | .not f, g, equal => by
      cases g with
      | not g =>
          obtain ⟨alike, same⟩ := sameUpToValues f g equal
          exact ⟨alike, fun values => congrArg Filter.not (same values)⟩
      | _ => cases equal

theorem sameUpToValuesOfAll : ∀ fs gs : List Filter, equalAll fs gs = true →
    SameUpToValues valuesOfAll fs gs
  | [], [], _ => ⟨.nil, fun _ => rfl⟩
  | f :: fs, g :: gs, equal => by
      rw [equalAll, Bool.and_eq_true] at equal
      obtain ⟨alike, same⟩ := sameUpToValues f g equal.1
      obtain ⟨alikeRest, sameRest⟩ := sameUpToValuesOfAll fs gs equal.2
      refine ⟨List.rel_append alike alikeRest, fun values => ?_⟩
      obtain ⟨first, rest⟩ := alike.append_inj values
      rw [same first, sameRest rest]

end

end Filter

namespace Query

def values (q : Query) : List Value := q.filter.elim [] Filter.values

theorem sameUpToValues (q p : Query) (equal : (q == p) = true) : SameUpToValues values q p := by
  obtain ⟨filter, _, _, _⟩ := q
  obtain ⟨other, _, _, _⟩ := p
  obtain ⟨rfl, rfl, rfl, rfl | ⟨f, g, rfl, rfl, filters⟩⟩ := Query.Alike.parts (.inr equal)
  · exact ⟨Value.allAlike_refl _, fun _ => rfl⟩
  · obtain ⟨alike, same⟩ := Filter.sameUpToValues f g filters
    refine ⟨alike, fun values => ?_⟩
    rw [same values]

end Query

namespace Request

mutual

/-- The values that the filters of a request compare with, in the order of its nodes. -/
def values : Request → List Value
  | ⟨_, relations, query⟩ => query.values ++ valuesBelow relations

def valuesBelow : List (String × Request) → List Value
  | [] => []
  | (_, request) :: rest => values request ++ valuesBelow rest

end

mutual

theorem sameUpToValues : ∀ r s : Request, r.equal s = true → SameUpToValues values r s
  | ⟨f, rs, q⟩, ⟨g, ss, p⟩, equal => by
      obtain ⟨rfl, relations, queries⟩ := equal_cases equal
      obtain ⟨alike, same⟩ := Query.sameUpToValues q p queries
      obtain ⟨alikeBelow, sameBelow⟩ := sameUpToValuesBelow rs ss relations
      refine ⟨List.rel_append alike alikeBelow, fun values => ?_⟩
      obtain ⟨here, below⟩ := alike.append_inj values
      rw [same here, sameBelow below]

theorem sameUpToValuesBelow : ∀ rs ss : List (String × Request), equalRelations rs ss = true →
    SameUpToValues valuesBelow rs ss
  | [], [], _ => ⟨.nil, fun _ => rfl⟩
  | (m, r) :: rs, (n, s) :: ss, equal => by
      obtain ⟨rfl, first, rest⟩ := equalRelations_cases equal
      obtain ⟨alike, same⟩ := sameUpToValues r s first
      obtain ⟨alikeRest, sameRest⟩ := sameUpToValuesBelow rs ss rest
      refine ⟨List.rel_append alike alikeRest, fun values => ?_⟩
      obtain ⟨here, later⟩ := alike.append_inj values
      rw [same here, sameRest later]

end

end Request

namespace Sql.Memo

theorem setBatch_batch (m : Memo) (batch : List Value) :
    (m.setBatch batch).batch = if batch == m.batch then m.batch else batch := by
  unfold Memo.setBatch
  split <;> rfl

/-- A batch, query or filter that is given takes the place of the one before, and is what the next
statement is rendered for, unless the two are confused. -/
structure Replaces (plan : Plan) (k : Nat) (m : Memo) : Prop where
  batch (batch : List Value) : ((m.setBatch batch).batch = batch ↔ ¬Confused id batch m.batch) ∧
    (m.setBatch batch).statement.1 =
      Statement.anew plan k m.rootQuery (m.setBatch batch).batch
  query {query : Query} {next : Memo} (accepted : m.setQuery query = .ok next) :
    (next.rootQuery = query ↔ ¬Confused Query.values query m.rootQuery) ∧
      next.statement.1 = Statement.anew plan k next.rootQuery m.batch
  filter {filter : Option Filter} {next : Memo} (accepted : m.setFilter filter = .ok next) :
    let query := { m.rootQuery with filter := filter }
    (next.rootQuery = query ↔ ¬Confused Query.values query m.rootQuery) ∧
      next.statement.1 = Statement.anew plan k next.rootQuery m.batch

theorem Coherent.replaces {plan : Plan} {k : Nat} {m : Memo} (coherent : m.Coherent plan k) :
    m.Replaces plan k := by
  have query : ∀ {query : Query} {next : Memo}, m.setQuery query = .ok next →
      (next.rootQuery = query ↔ ¬Confused Query.values query m.rootQuery) ∧
        next.statement.1 = Statement.anew plan k next.rootQuery m.batch := by
    intro query next accepted
    rw [(coherent.setQuery accepted).statement.1, setQuery_batch accepted,
      setQuery_rootQuery accepted]
    exact ⟨unless_equal_iff Query.sameUpToValues, rfl⟩
  refine ⟨fun batch => ?_, query, query⟩
  rw [(coherent.setBatch batch).statement.1, setBatch_rootQuery, setBatch_batch]
  exact ⟨unless_equal_iff valuesUpToValues, rfl⟩

end Sql.Memo

namespace Plan

/-- A plan has a request at its nodes, unless it is the plan of another one that is confused with it. -/
def Carries (p : Plan) (request : Request) : Prop :=
  p.data.map (·.request) = request.preorder ↔
    ¬∃ own, p.data.head?.map (·.request) = some own ∧ Confused Request.values own request

theorem carries_of_build {catalog : Catalog} {format : String} {plural : Bool} {own request : Request}
    {p : Plan} (built : build catalog format plural own = .ok p)
    (same : own = request ∨ (own == request) = true) : p.Carries request := by
  obtain ⟨root, first, rooted⟩ := build_root built
  have once : (∃ r, some own = some r ∧ Confused Request.values r request) ↔
      Confused Request.values own request := by simp
  rw [Carries, build_requests built, first, Option.map_some, rooted, once,
    confused_iff Request.sameUpToValues]
  constructor
  · intro carried confused
    exact confused.2 (Request.preorder_inj carried)
  · intro clear
    rcases same with rfl | equal
    · rfl
    · rw [of_not_not fun differ => clear ⟨equal, differ⟩]

end Plan

namespace PlanCache

theorem Faithful.carries {catalog : Catalog} {c next : PlanCache} {keys : List PlanKey} {d : Demand}
    {shared : SharedPlan} (faithful : Faithful catalog c keys) (hit : (c.find? d.key).isSome)
    (given : c.answer catalog d = .ok (shared, next)) : shared.plan.Carries d.request := by
  obtain ⟨kept, found⟩ := Option.isSome_iff_exists.mp hit
  obtain ⟨rebound, r, first, built⟩ := faithful.rebind found
  obtain ⟨root, head, rfl⟩ := Option.map_eq_some_iff.mp first
  rw [answer_of_found found, head, Option.any_some, rebound] at given
  split at given
  · next equal =>
      cases given
      exact Plan.carries_of_build built (.inr equal)
  · obtain ⟨plan, planned, numbered⟩ := Result.map_eq_ok.mp given
    cases numbered
    exact Plan.carries_of_build planned (.inl rfl)

theorem World.Sound.carries {catalog : Catalog} {w : World} {i : Nat} {d : Demand} {origin : Origin}
    {shared : SharedPlan} (sound : w.Sound catalog) (hit : origin = .found ∨ origin = .rebound)
    (given : w.callers[i]? = some ⟨d, .returned origin shared⟩) :
    shared.plan.Carries d.request := by
  have explained := (sound.callers _ (List.mem_of_getElem? given)).2
  rcases hit with rfl | rfl
  · obtain ⟨j, other, kept, _, equal⟩ := explained
    exact Plan.carries_of_build (sound.kept kept) (.inr equal)
  · exact Plan.carries_of_build explained (.inl rfl)

end PlanCache

open PlanCache (Call Demand Origin)
open PlanCache.World (userById)

/-- What is given is kept, after any calls on a statement and with any plan that a cache finds, whether
its calls come one after another or interleave: each value is the one that was given, unless what was there
before is equal and has a twin of a value in its place. -/
theorem given_unless_confused (catalog : Catalog) :
    (∀ (plan : Plan) (k : Nat) (m : Sql.Memo), Sql.Memo.ofPlan plan k = .ok m →
      ∀ calls, (m.after calls).Replaces plan k) ∧
    (∀ (calls : List Call), (∀ d, .get d ∈ calls → d.Proper) →
      let c := PlanCache.after catalog calls
      ∀ (d : Demand) (shared : SharedPlan) (next : PlanCache), (c.find? d.key).isSome →
        c.answer catalog d = .ok (shared, next) → shared.plan.Carries d.request) ∧
    ∀ (demands : List Demand), (∀ d ∈ demands, d.request.NamesOnce) →
      ∀ (schedule : List Nat) (i : Nat) (d : Demand) (origin : Origin) (shared : SharedPlan),
        (PlanCache.World.run catalog demands schedule).callers[i]? =
          some ⟨d, .returned origin shared⟩ →
        origin = .found ∨ origin = .rebound → shared.plan.Carries d.request := by
  refine ⟨?_, ?_, ?_⟩
  · intro plan k m fresh calls
    exact ((Sql.Memo.coherent_ofPlan fresh).after calls).replaces
  · intro calls proper c d shared next hit given
    exact (PlanCache.after_faithful proper).carries hit given
  · intro demands once schedule i d origin shared given hit
    exact (PlanCache.World.run_sound catalog once schedule).carries hit given

open Sql (Memo Statement)

def everyUser : Request := ⟨some ["name"], [], .empty⟩

def byId (value : Value) : Query := ⟨some (.compare .eq "id" value), [], none, none⟩

/-- One and a half. -/
def oneAndHalf : Binary64 := ⟨0x3ff8000000000000⟩

/-- The user with the identifier 1 is asked for after those with one and a half, and user 2 from a cache that
keeps the plan for user 1. -/
theorem given_unless_confused_users :
    (∃ plan m next, Plan.build Schema.blog.catalog "user" true everyUser = .ok plan ∧
      Memo.ofPlan plan 0 = .ok m ∧
      (m.after [.setQuery (byId (.float oneAndHalf)), .statement]).setQuery (byId (.int 1)) =
        .ok next ∧ next.rootQuery = byId (.int 1)) ∧
    (∃ shared next, (PlanCache.after Schema.blog.catalog [.get (userById 1)]).answer
        Schema.blog.catalog (userById 2) = .ok (shared, next) ∧
      shared.plan.data.map (·.request) = (userById 2).request.preorder) ∧
    ∃ shared, (PlanCache.World.run Schema.blog.catalog [userById 1, userById 2]
        [0, 0, 0, 1]).callers[1]? = some ⟨userById 2, .returned .rebound shared⟩ ∧
      shared.plan.data.map (·.request) = (userById 2).request.preorder := by
  obtain ⟨statements, calls, interleaved⟩ := given_unless_confused Schema.blog.catalog
  have carried : ∀ {shared : SharedPlan}, shared.plan.Carries (userById 2).request →
      shared.plan.data.head?.map (·.request) = some (userById 2).request →
      shared.plan.data.map (·.request) = (userById 2).request.preorder := by
    intro shared carries own
    refine carries.mpr ?_
    rintro ⟨other, root, confused⟩
    cases own.symm.trans root
    exact ((confused_iff Request.sameUpToValues).mp confused).2 rfl
  refine ⟨?_, ?_, ?_⟩
  · have asked : ∃ plan m next, Plan.build Schema.blog.catalog "user" true everyUser = .ok plan ∧
        Memo.ofPlan plan 0 = .ok m ∧
        (m.after [.setQuery (byId (.float oneAndHalf)), .statement]).setQuery (byId (.int 1)) =
          .ok next ∧
        (m.after [.setQuery (byId (.float oneAndHalf)), .statement]).rootQuery =
          byId (.float oneAndHalf) := ⟨_, _, _, rfl, rfl, rfl, rfl⟩
    obtain ⟨plan, m, next, built, fresh, accepted, before⟩ := asked
    have replaced := ((statements plan 0 m fresh _).query accepted).1
    refine ⟨plan, m, next, built, fresh, accepted, replaced.mpr fun confused => ?_⟩
    rw [before] at confused
    have different : (byId (.int 1) == byId (.float oneAndHalf)) = false := by decide +kernel
    cases confused.1.symm.trans different
  · have proper : ∀ d, .get d ∈ [Call.get (userById 1)] → d.Proper := by
      rintro _ (_ | ⟨_, ⟨⟩⟩)
      exact PlanCache.userById_proper 1
    have found : ∃ shared next, (PlanCache.after Schema.blog.catalog [.get (userById 1)]).answer
          Schema.blog.catalog (userById 2) = .ok (shared, next) ∧
        shared.plan.data.head?.map (·.request) = some (userById 2).request := ⟨_, _, rfl, rfl⟩
    obtain ⟨shared, next, given, own⟩ := found
    exact ⟨shared, next, given, carried (calls _ proper _ _ _ rfl given) own⟩
  · have copied : ∃ shared, (PlanCache.World.run Schema.blog.catalog [userById 1, userById 2]
          [0, 0, 0, 1]).callers[1]? = some ⟨userById 2, .returned .rebound shared⟩ ∧
        shared.plan.data.head?.map (·.request) = some (userById 2).request := ⟨_, rfl, rfl⟩
    obtain ⟨shared, given, own⟩ := copied
    refine ⟨shared, given, carried ?_ own⟩
    exact interleaved _ PlanCache.World.userById_namesOnce _ _ _ _ _ given (.inr rfl)

/-- The next number after the greatest integer, as a float. -/
def beyondIntegers : Binary64 := ⟨0x43e0000000000000⟩

/-- Users are asked for by a float and then by an integer that is less than it by one: the float stays,
and the statement binds it. -/
theorem integer_not_given : ∃ plan m next last,
    Plan.build Schema.blog.catalog "user" true everyUser = .ok plan ∧ Memo.ofPlan plan 0 = .ok m ∧
      m.setQuery (byId (.float beyondIntegers)) = .ok next ∧
      next.setQuery (byId (.int 9223372036854775807)) = .ok last ∧
      last.rootQuery ≠ byId (.int 9223372036854775807) ∧
      last.statement.1.map (·.params) = .ok [.float beyondIntegers] := by
  have asked : ∃ plan m next last,
      Plan.build Schema.blog.catalog "user" true everyUser = .ok plan ∧ Memo.ofPlan plan 0 = .ok m ∧
        m.setQuery (byId (.float beyondIntegers)) = .ok next ∧
        next.setQuery (byId (.int 9223372036854775807)) = .ok last ∧
        next.rootQuery = byId (.float beyondIntegers) ∧
        next.statement.1.map (·.params) = .ok [.float beyondIntegers] :=
    ⟨_, _, _, _, rfl, rfl, rfl, rfl, rfl, rfl⟩
  obtain ⟨plan, m, next, last, built, fresh, first, second, before, bound⟩ := asked
  have equal : (byId (.int 9223372036854775807) == byId (.float beyondIntegers)) = true := by
    decide +kernel
  have same := Memo.setQuery_eq second
  rw [before, if_pos equal] at same
  subst same
  refine ⟨plan, m, last, last, built, fresh, first, second, ?_, bound⟩
  rw [before]
  rintro ⟨⟩

end NestedQuery
