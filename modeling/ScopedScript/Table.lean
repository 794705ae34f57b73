/-!
# Tables of named entries

A table holds at most one entry for a name, in the order in which the names were first entered.
Scopes hold their symbols in one, frames their variables and their functions.
-/

namespace ScopedScript

/-- Entries under names. -/
structure Table (α : Type) where
  /-- The entries in the order in which their names were first entered. -/
  entries : List (String × α)

namespace Table

variable {α : Type}

/-- The table without entries. -/
def empty : Table α := ⟨[]⟩

instance : Inhabited (Table α) := ⟨empty⟩

/-- The entry of a name in a list of entries. -/
def findIn (name : String) : List (String × α) → Option α
  | [] => none
  | (key, entry) :: rest => if key = name then some entry else findIn name rest

/-- The entry of a name. -/
def find? (table : Table α) (name : String) : Option α :=
  findIn name table.entries

/-- Whether a name has an entry. -/
def contains (table : Table α) (name : String) : Bool :=
  (table.find? name).isSome

/-- Adds an entry at the end of a list, or replaces the one of its name where it stands. -/
def insertIn (name : String) (entry : α) : List (String × α) → List (String × α)
  | [] => [(name, entry)]
  | (key, old) :: rest =>
    if key = name then (key, entry) :: rest else (key, old) :: insertIn name entry rest

/-- The table with the entry of a name added or replaced. -/
def insert (table : Table α) (name : String) (entry : α) : Table α :=
  ⟨insertIn name entry table.entries⟩

/-- How many names have an entry. -/
def size (table : Table α) : Nat :=
  table.entries.length

/-- The entries with their names in ascending order. -/
def sorted (table : Table α) : List (String × α) :=
  table.entries.mergeSort fun a b => a.1 ≤ b.1

/-! ## What is found behind an insertion -/

theorem findIn_insertIn (name other : String) (entry : α) (entries : List (String × α)) :
    findIn other (insertIn name entry entries) =
      if other = name then some entry else findIn other entries := by
  induction entries with
  | nil => simp [insertIn, findIn, eq_comm]
  | cons head rest ih =>
    obtain ⟨key, old⟩ := head
    by_cases hkey : key = name
    · subst hkey
      by_cases hother : key = other <;> simp_all [insertIn, findIn, eq_comm]
    · by_cases hother : key = other
      · subst hother
        simp_all [insertIn, findIn]
      · simp_all [insertIn, findIn]

@[simp] theorem find?_empty (name : String) : (empty : Table α).find? name = none := rfl

theorem find?_insert (table : Table α) (name other : String) (entry : α) :
    (table.insert name entry).find? other =
      if other = name then some entry else table.find? other :=
  findIn_insertIn name other entry table.entries

@[simp] theorem find?_insert_self (table : Table α) (name : String) (entry : α) :
    (table.insert name entry).find? name = some entry := by
  simp [find?_insert]

theorem find?_insert_of_ne (table : Table α) {name other : String} (entry : α)
    (h : other ≠ name) : (table.insert name entry).find? other = table.find? other := by
  simp [find?_insert, h]

end Table

end ScopedScript
