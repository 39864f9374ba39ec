/- Laws of finite maps from names: what is found after insertions, and that maps with the same
entries are the same list. -/
import Mathlib.Data.List.Nodup
import NestedQuery.Fields

namespace NestedQuery.Fields

variable {α β : Type u}

theorem mem_of_lookup {κ : Type u} [BEq κ] [LawfulBEq κ] {entries : List (κ × α)} {key : κ} {value : α}
    (listed : entries.lookup key = some value) : (key, value) ∈ entries := by
  obtain ⟨before, after, rfl, _⟩ := List.lookup_eq_some_iff.mp listed
  exact List.mem_append_right before (List.mem_cons_self ..)

theorem find?_insert_of_ne {name other : String} (different : other ≠ name) (value : α)
    (fields : Fields α) : find? other (insert name value fields) = find? other fields := by
  induction fields with
  | nil => simp only [insert, find?, if_neg different.symm]
  | cons entry rest ih =>
      obtain ⟨n, v⟩ := entry
      simp only [insert]
      split
      · simp only [find?, if_neg different.symm]
      · split
        · simp only [find?, ih]
        · next notBefore notAfter =>
            -- neither before nor after, so this is the entry that is replaced
            have same : n = name :=
              String.le_antisymm (String.not_lt.mp notBefore) (String.not_lt.mp notAfter)
            subst same
            simp only [find?, if_neg different.symm]

theorem find?_insert (name other : String) (value : α) (fields : Fields α) :
    find? other (insert name value fields) =
      if other = name then some value else find? other fields := by
  split
  · next same => rw [same, find?_insert_self]
  · next different => exact find?_insert_of_ne different value fields

theorem find?_eq_none_iff {name : String} {fields : Fields α} :
    find? name fields = none ↔ name ∉ fields.names := by
  induction fields with
  | nil =>
      constructor
      · intro _ member
        cases member
      · intro _
        rfl
  | cons entry rest ih =>
      obtain ⟨n, v⟩ := entry
      simp only [find?, names, List.map_cons, List.mem_cons, not_or]
      split
      · next same =>
          constructor
          · intro found
            cases found
          · intro absent
            exact absurd same.symm absent.1
      · next different =>
          rw [ih]
          constructor
          · intro absent
            exact ⟨Ne.symm different, absent⟩
          · intro absent
            exact absent.2

theorem mem_of_find? {name : String} {fields : Fields α} {value : α}
    (found : find? name fields = some value) : (name, value) ∈ fields := by
  induction fields with
  | nil => cases found
  | cons entry rest ih =>
      obtain ⟨n, v⟩ := entry
      simp only [find?] at found
      split at found
      · next same =>
          cases found
          exact same ▸ List.mem_cons_self ..
      · exact List.mem_cons_of_mem _ (ih found)

theorem find?_eq_map (name : String) (fields : Fields α) :
    find? name fields = (List.find? (·.1 == name) fields).map (·.2) := by
  induction fields with
  | nil => rfl
  | cons entry rest ih =>
      by_cases same : entry.1 = name
      · simp [find?, same]
      · simp [find?, same, ih]

/-- What is found after inserting entries in order: the last one of the name, else what was there. -/
theorem find?_foldl_insert (name : String) (entries : List (String × α)) (start : Fields α) :
    find? name (entries.foldl (fun fields entry => insert entry.1 entry.2 fields) start) =
      ((entries.reverse.find? (·.1 == name)).map (·.2)).or (find? name start) := by
  induction entries generalizing start with
  | nil => rfl
  | cons entry rest ih =>
      rw [List.foldl_cons, ih, find?_insert, List.reverse_cons, List.find?_append]
      cases rest.reverse.find? (·.1 == name) with
      | some last => rfl
      | none =>
          by_cases same : name = entry.1
          · simp [same]
          · simp [same, Ne.symm same]

/-- A map that is given by a function on some names finds its values there and nothing else. -/
theorem find?_ofList_map (value : String → α) (name : String) (keys : List String) :
    find? name (ofList (keys.map fun key => (key, value key))) =
      if name ∈ keys then some (value name) else none := by
  rw [ofList, find?_foldl_insert, ← List.map_reverse, List.find?_map, find?_nil, Option.or_none]
  split
  · next known =>
      cases found : keys.reverse.find? ((·.1 == name) ∘ fun key => (key, value key)) with
      | some key =>
          have same : key = name := by simpa using List.find?_some found
          simp [same]
      | none =>
          have := List.find?_eq_none.mp found name (List.mem_reverse.mpr known)
          simp at this
  · next unknown =>
      rw [List.find?_eq_none.mpr]
      · rfl
      · intro key member same
        have equal : key = name := by simpa using same
        exact unknown (equal ▸ List.mem_reverse.mp member)

theorem find?_ofList_append (name : String) (first later : List (String × α)) :
    find? name (ofList (first ++ later)) =
      (find? name (ofList later)).or (find? name (ofList first)) := by
  simp only [ofList, List.foldl_append, find?_foldl_insert, find?_nil, Option.or_none]

/-- Changing each value by its name changes what is found by it. -/
theorem find?_ofList_map_value (change : String → α → β) (name : String)
    (entries : List (String × α)) :
    find? name (ofList (entries.map fun entry => (entry.1, change entry.1 entry.2))) =
      (find? name (ofList entries)).map (change name) := by
  simp only [ofList, find?_foldl_insert, find?_nil, Option.or_none, ← List.map_reverse,
    List.find?_map]
  change ((entries.reverse.find? fun entry => entry.1 == name).map _).map _ = _
  cases found : entries.reverse.find? fun entry => entry.1 == name with
  | none => rfl
  | some entry =>
      have same : entry.1 = name := by simpa using List.find?_some found
      simp [same]

theorem mem_of_find?_ofList {name : String} {entries : List (String × α)} {value : α}
    (found : find? name (ofList entries) = some value) : (name, value) ∈ entries := by
  rw [ofList, find?_foldl_insert, find?_nil, Option.or_none] at found
  obtain ⟨entry, last, rfl⟩ := Option.map_eq_some_iff.mp found
  have same : entry.1 = name := by simpa using List.find?_some last
  subst same
  exact List.mem_reverse.mp (List.mem_of_find?_eq_some last)

theorem find?_ofList_isSome {name : String} {entries : List (String × α)} {value : α}
    (found : find? name (ofList entries) = some value) : name ∈ entries.map (·.1) :=
  List.mem_map.mpr ⟨_, mem_of_find?_ofList found, rfl⟩

theorem exists_find?_ofList {name : String} {entries : List (String × α)}
    (listed : name ∈ entries.map (·.1)) : ∃ value, find? name (ofList entries) = some value := by
  obtain ⟨entry, member, rfl⟩ := List.mem_map.mp listed
  rw [ofList, find?_foldl_insert, find?_nil, Option.or_none]
  cases found : entries.reverse.find? (·.1 == entry.1) with
  | some last => exact ⟨last.2, rfl⟩
  | none =>
      have missed := List.find?_eq_none.mp found entry (List.mem_reverse.mpr member)
      simp at missed

/-- Entries are kept and changed by their names. -/
theorem find?_filter_map (keep : String → Bool) (change : String → α → β) (name : String)
    (fields : Fields α) :
    find? name ((fields.filter fun entry => keep entry.1).map
        fun entry => (entry.1, change entry.1 entry.2)) =
      if keep name then (find? name fields).map (change name) else none := by
  induction fields with
  | nil => simp only [List.filter_nil, List.map_nil, find?_nil, Option.map_none, ite_self]
  | cons entry rest ih =>
      obtain ⟨n, v⟩ := entry
      rw [List.filter_cons]
      by_cases same : n = name
      · subst same
        cases kept : keep n with
        | true => simp [find?]
        | false => simpa [kept] using ih
      · cases kept : keep n with
        | true => simpa [find?, same] using ih
        | false => simpa [find?, same] using ih

/-- In increasing order of the names. -/
def Sorted (fields : Fields α) : Prop := fields.Pairwise fun a b => a.1 < b.1

theorem mem_insert {name : String} {value : α} {fields : Fields α} {entry : String × α}
    (member : entry ∈ insert name value fields) : entry = (name, value) ∨ entry ∈ fields := by
  induction fields with
  | nil => exact .inl (List.mem_singleton.mp member)
  | cons first rest ih =>
      obtain ⟨n, v⟩ := first
      simp only [insert] at member
      split at member
      · exact List.mem_cons.mp member
      · split at member
        · rcases List.mem_cons.mp member with here | later
          · exact .inr (here ▸ List.mem_cons_self ..)
          · exact (ih later).imp_right (List.mem_cons_of_mem _)
        · exact (List.mem_cons.mp member).imp_right (List.mem_cons_of_mem _)

theorem Sorted.insert {fields : Fields α} (sorted : Sorted fields) (name : String) (value : α) :
    Sorted (insert name value fields) := by
  induction fields with
  | nil => exact List.pairwise_singleton ..
  | cons first rest ih =>
      obtain ⟨n, v⟩ := first
      obtain ⟨least, tail⟩ := List.pairwise_cons.mp sorted
      simp only [Fields.insert]
      split
      · next before =>
          refine List.pairwise_cons.mpr ⟨?_, sorted⟩
          exact List.forall_mem_cons.mpr
            ⟨before, fun entry member => String.lt_trans before (least entry member)⟩
      · split
        · next after =>
            refine List.pairwise_cons.mpr ⟨?_, ih tail⟩
            intro entry member
            rcases mem_insert member with rfl | old
            · exact after
            · exact least entry old
        · next notBefore notAfter =>
            have same : n = name :=
              String.le_antisymm (String.not_lt.mp notBefore) (String.not_lt.mp notAfter)
            subst same
            exact List.pairwise_cons.mpr ⟨least, tail⟩

theorem Sorted.foldl_insert {start : Fields α} (sorted : Sorted start)
    (entries : List (String × α)) :
    Sorted (entries.foldl (fun fields entry => Fields.insert entry.1 entry.2 fields) start) := by
  induction entries generalizing start with
  | nil => exact sorted
  | cons entry rest ih => exact ih (sorted.insert entry.1 entry.2)

theorem sorted_ofList (entries : List (String × α)) : Sorted (ofList entries) :=
  Sorted.foldl_insert .nil entries

theorem Sorted.filter_map {fields : Fields α} (sorted : Sorted fields) (keep : String → Bool)
    (change : String → α → β) :
    Sorted ((fields.filter fun entry => keep entry.1).map
      fun entry => (entry.1, change entry.1 entry.2)) :=
  List.pairwise_map.mpr (List.Pairwise.filter _ sorted)

theorem find?_of_lt {name : String} {fields : Fields α}
    (before : ∀ entry ∈ fields, name < entry.1) : find? name fields = none := by
  refine find?_eq_none_iff.mpr fun member => ?_
  obtain ⟨entry, known, same⟩ := List.mem_map.mp member
  exact String.lt_irrefl name (same ▸ before entry known)

theorem Sorted.not_lt_first {name n : String} {v : α} {rest : Fields α}
    (sorted : Sorted ((n, v) :: rest)) (found : find? name ((n, v) :: rest) ≠ none) :
    ¬name < n := by
  intro before
  have least := (List.pairwise_cons.mp sorted).1
  exact found <| find?_of_lt <| List.forall_mem_cons.mpr
    ⟨before, fun entry member => String.lt_trans before (least entry member)⟩

/-- Two maps in which the same is found are the same. -/
theorem Sorted.ext {a b : Fields α} (sortedA : Sorted a) (sortedB : Sorted b)
    (same : ∀ name, find? name a = find? name b) : a = b := by
  induction a generalizing b with
  | nil =>
      cases b with
      | nil => rfl
      | cons second later =>
          have := same second.1
          simp [find?] at this
  | cons first rest ih =>
      obtain ⟨m, x⟩ := first
      obtain ⟨leastA, tailA⟩ := List.pairwise_cons.mp sortedA
      cases b with
      | nil =>
          have := same m
          simp [find?] at this
      | cons second later =>
          obtain ⟨n, y⟩ := second
          obtain ⟨leastB, tailB⟩ := List.pairwise_cons.mp sortedB
          -- a smaller first name would be missing in the other map
          have noSmaller : ¬m < n := sortedB.not_lt_first (by rw [← same m]; simp [find?])
          have noGreater : ¬n < m := sortedA.not_lt_first (by rw [same n]; simp [find?])
          obtain rfl : m = n :=
            String.le_antisymm (String.not_lt.mp noGreater) (String.not_lt.mp noSmaller)
          have value : x = y := by simpa [find?] using same m
          have tails : rest = later := by
            refine ih tailA tailB fun name => ?_
            by_cases here : m = name
            · subst here
              rw [find?_of_lt leastA, find?_of_lt leastB]
            · simpa [find?, here] using same name
          rw [value, tails]

theorem find?_ofList_iff {entries : List (String × α)} (once : (entries.map (·.1)).Nodup)
    {name : String} {value : α} :
    find? name (ofList entries) = some value ↔ (name, value) ∈ entries := by
  refine ⟨mem_of_find?_ofList, fun member => ?_⟩
  obtain ⟨last, found⟩ := exists_find?_ofList (List.mem_map.mpr ⟨_, member, rfl⟩)
  cases List.inj_on_of_nodup_map once (mem_of_find?_ofList found) member rfl
  exact found

/-- The order in which entries of different names are added does not matter. -/
theorem ofList_append_perm {first later others : List (String × α)} (perm : later.Perm others)
    (once : (later.map (·.1)).Nodup) : ofList (first ++ later) = ofList (first ++ others) := by
  refine Sorted.ext (sorted_ofList _) (sorted_ofList _) fun name => ?_
  have same : find? name (ofList later) = find? name (ofList others) := by
    refine Option.ext fun value => ?_
    rw [find?_ofList_iff once, find?_ofList_iff ((perm.map _).nodup_iff.mp once), perm.mem_iff]
  rw [find?_ofList_append, find?_ofList_append, same]

end NestedQuery.Fields
