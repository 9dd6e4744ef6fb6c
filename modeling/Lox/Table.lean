/-!
Tables from names to values that remember the order in which the names came in. Setting a name again keeps
its place.
-/
namespace Lox

structure Table (α : Type) where
  entries : List (String × α) := []
  deriving Repr, Inhabited

namespace Table

variable {α : Type}

def empty : Table α := ⟨[]⟩

def get? (table : Table α) (name : String) : Option α := table.entries.lookup name

def contains (table : Table α) (name : String) : Bool := (table.get? name).isSome

/-- The entries with the value of `name` changed, or with a new entry at the end. -/
def setIn (name : String) (value : α) : List (String × α) → List (String × α)
  | [] => [(name, value)]
  | (key, old) :: rest => if key = name then (key, value) :: rest else (key, old) :: setIn name value rest

def set (table : Table α) (name : String) (value : α) : Table α := ⟨setIn name value table.entries⟩

/-- The names in the order in which they came in. -/
def names (table : Table α) : List String := table.entries.map Prod.fst

private theorem lookup_setIn_self (name : String) (value : α) (entries : List (String × α)) :
    (setIn name value entries).lookup name = some value := by
  induction entries with
  | nil => simp [setIn]
  | cons entry rest ih =>
    obtain ⟨key, old⟩ := entry
    by_cases same : key = name
    · simp [setIn, same]
    · have other : (name == key) = false := beq_eq_false_iff_ne.2 (Ne.symm same)
      simp only [setIn, same, if_false, List.lookup_cons, other]
      exact ih

private theorem lookup_setIn_of_ne {name other : String} (distinct : other ≠ name) (value : α)
    (entries : List (String × α)) : (setIn name value entries).lookup other = entries.lookup other := by
  induction entries with
  | nil => simp [setIn, List.lookup_cons, beq_eq_false_iff_ne.2 distinct]
  | cons entry rest ih =>
    obtain ⟨key, old⟩ := entry
    by_cases same : key = name
    · simp [setIn, same, List.lookup_cons, beq_eq_false_iff_ne.2 distinct]
    · simp only [setIn, same, if_false, List.lookup_cons, ih]

@[simp]
theorem get?_empty (name : String) : (empty : Table α).get? name = none := rfl

@[simp]
theorem get?_set_self (table : Table α) (name : String) (value : α) :
    (table.set name value).get? name = some value :=
  lookup_setIn_self name value table.entries

theorem get?_set_of_ne (table : Table α) {name other : String} (distinct : other ≠ name) (value : α) :
    (table.set name value).get? other = table.get? other :=
  lookup_setIn_of_ne distinct value table.entries

theorem get?_set (table : Table α) (name other : String) (value : α) :
    (table.set name value).get? other = if other = name then some value else table.get? other := by
  by_cases same : other = name
  · simp [same]
  · simp [same, get?_set_of_ne table same]

/-- What a table has after a name was set is new or was there before. -/
theorem get?_set_cases {table : Table α} {name other : String} {value found : α}
    (held : (table.set name value).get? other = some found) :
    other = name ∧ found = value ∨ table.get? other = some found := by
  rw [get?_set] at held
  split at held
  · rename_i same
    exact .inl ⟨same, (Option.some.inj held).symm⟩
  · exact .inr held

/-- A name that is there keeps its place, any other one comes last. -/
theorem names_set (table : Table α) (name : String) (value : α) :
    (table.set name value).names =
      if name ∈ table.names then table.names else table.names ++ [name] := by
  obtain ⟨entries⟩ := table
  simp only [names, set]
  induction entries with
  | nil => simp [setIn]
  | cons entry rest ih =>
    obtain ⟨key, old⟩ := entry
    by_cases same : key = name
    · simp [setIn, same]
    · have distinct : name ≠ key := Ne.symm same
      simp only [setIn, same, if_false, List.map_cons, ih, List.mem_cons, distinct, false_or]
      by_cases member : name ∈ List.map Prod.fst rest <;> simp [member]

theorem mem_names_iff (table : Table α) (name : String) : name ∈ table.names ↔ table.contains name = true := by
  obtain ⟨entries⟩ := table
  simp only [names, contains, get?]
  induction entries with
  | nil => simp
  | cons entry rest ih =>
    obtain ⟨key, old⟩ := entry
    by_cases same : name = key
    · simp [same]
    · have other : (name == key) = false := beq_eq_false_iff_ne.2 same
      simp only [List.map_cons, List.mem_cons, same, false_or, List.lookup_cons, other, ih]

end Table

end Lox
