/- Finite maps from names, as lists of pairs in increasing order of the names. -/

namespace NestedQuery

abbrev Fields (α : Type u) := List (String × α)

namespace Fields

variable {α : Type u}

/-- Sets the value of a name, at its place in the order. -/
def insert (name : String) (value : α) : Fields α → Fields α
  | [] => [(name, value)]
  | (n, v) :: rest =>
    if name < n then (name, value) :: (n, v) :: rest
    else if n < name then (n, v) :: insert name value rest
    else (name, value) :: rest

def find? (name : String) : Fields α → Option α
  | [] => none
  | (n, v) :: rest => if n = name then some v else find? name rest

def names (fields : Fields α) : List String := fields.map (·.1)

/-- Of several values for one name the last one is kept. -/
def ofList (entries : List (String × α)) : Fields α :=
  entries.foldl (fun fields entry => insert entry.1 entry.2 fields) []

@[simp] theorem find?_nil (name : String) : find? name ([] : Fields α) = none := rfl

theorem find?_insert_self (name : String) (value : α) (fields : Fields α) :
    find? name (insert name value fields) = some value := by
  induction fields with
  | nil => simp [insert, find?]
  | cons entry rest ih =>
    obtain ⟨n, v⟩ := entry
    by_cases before : name < n
    · simp [insert, find?, before]
    · by_cases after : n < name
      · have other : n ≠ name := fun same => String.lt_irrefl name (same ▸ after)
        simp [insert, find?, before, after, other, ih]
      · simp [insert, find?, before, after]

end Fields
end NestedQuery
