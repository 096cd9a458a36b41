/-
Module: TsxLint.Table
Purpose: Tables with text keys that remember the order of first insertion.
Main exports: Table, Table.get?, Table.put, Table.merge, Table.keys
-/

namespace TsxLint

/-!
Settings, options, findings' data and the rule registry are all shown in the
order in which their keys first appeared.  A table is therefore a list of
entries; writing to a key that is present replaces its value in place, so a
later value keeps the earlier position.
-/

/-- Entries in insertion order. -/
abbrev Table (α : Type) := List (String × α)

namespace Table

variable {α β : Type}

/-- The value of the first entry under `key`. -/
def get? (table : Table α) (key : String) : Option α :=
  match table with
  | [] => none
  | (k, v) :: rest => if k = key then some v else get? rest key

/-- Whether there is an entry under `key`. -/
def has (table : Table α) (key : String) : Bool :=
  (get? table key).isSome

/-- Replaces the value under `key` in place, or appends a new entry. -/
def put (table : Table α) (key : String) (value : α) : Table α :=
  match table with
  | [] => [(key, value)]
  | (k, v) :: rest => if k = key then (k, value) :: rest else (k, v) :: put rest key value

/-- Writes every entry of `upper` into `lower`, first to last. -/
def merge (lower upper : Table α) : Table α :=
  upper.foldl (fun table entry => put table entry.1 entry.2) lower

/-- Removes every entry under `key`. -/
def erase (table : Table α) (key : String) : Table α :=
  table.filter fun entry => entry.1 != key

/-- The keys in order. -/
def keys (table : Table α) : List String :=
  table.map (·.1)

/-- The values in order. -/
def values (table : Table α) : List α :=
  table.map (·.2)

/-- A table of the given entries, written first to last. -/
def ofEntries (entries : List (String × α)) : Table α :=
  merge [] entries

/-! ### Reading after writing -/

@[simp] theorem get?_nil (key : String) : get? ([] : Table α) key = none := rfl

theorem get?_put_self (table : Table α) (key : String) (value : α) :
    get? (put table key value) key = some value := by
  induction table with
  | nil => simp [put, get?]
  | cons entry rest ih =>
    obtain ⟨k, v⟩ := entry
    by_cases h : k = key <;> simp [put, get?, h, ih]

theorem get?_put_of_ne (table : Table α) {key other : String} (value : α) (h : other ≠ key) :
    get? (put table key value) other = get? table other := by
  induction table with
  | nil => simp [put, get?, Ne.symm h]
  | cons entry rest ih =>
    obtain ⟨k, v⟩ := entry
    by_cases hk : k = key
    · subst hk; simp [put, get?, Ne.symm h]
    · simp only [put, hk, if_false, get?, ih]

/-- Writing keeps the keys that are there, and appends a new one at the end. -/
theorem keys_put (table : Table α) (key : String) (value : α) :
    keys (put table key value) = if key ∈ keys table then keys table else keys table ++ [key] := by
  induction table with
  | nil => simp [put, keys]
  | cons entry rest ih =>
    obtain ⟨k, v⟩ := entry
    by_cases h : k = key
    · subst h; simp [put, keys]
    · simp only [keys, put, h, if_false, List.map_cons, List.mem_cons] at ih ⊢
      have hne : ¬ key = k := fun e => h e.symm
      simp only [hne, false_or]
      rw [ih]
      split <;> simp_all

end Table

end TsxLint
