/-! Named values in the order in which their names first appeared.

Storing under a name that is already present replaces the value where it
stands, and a new name goes to the end, so that names stay distinct.
-/

set_option autoImplicit false

namespace CommandLine

variable {α : Type}

namespace Table

def overwrite (name : String) (value : α) : List (String × α) → List (String × α)
  | [] => [(name, value)]
  | entry :: rest =>
    if entry.1 = name then (name, value) :: rest else entry :: overwrite name value rest

theorem map_fst_overwrite_of_mem {name : String} {entries : List (String × α)}
    (h : name ∈ entries.map (·.1)) (value : α) :
    (overwrite name value entries).map (·.1) = entries.map (·.1) := by
  induction entries with
  | nil => simp at h
  | cons entry rest ih =>
    unfold overwrite
    split
    next same => simp [same]
    next different =>
      have inRest : name ∈ rest.map (·.1) := by
        rcases List.mem_cons.mp h with same | inRest
        · exact absurd same.symm different
        · exact inRest
      simp [ih inRest]

theorem map_fst_overwrite_of_not_mem {name : String} {entries : List (String × α)}
    (h : name ∉ entries.map (·.1)) (value : α) :
    (overwrite name value entries).map (·.1) = entries.map (·.1) ++ [name] := by
  induction entries with
  | nil => rfl
  | cons entry rest ih =>
    rw [List.map_cons, List.mem_cons, not_or] at h
    unfold overwrite
    rw [if_neg fun same => h.1 same.symm]
    simp [ih h.2]

theorem nodup_overwrite {entries : List (String × α)} (distinct : (entries.map (·.1)).Nodup)
    (name : String) (value : α) : ((overwrite name value entries).map (·.1)).Nodup := by
  by_cases h : name ∈ entries.map (·.1)
  · rwa [map_fst_overwrite_of_mem h]
  · rw [map_fst_overwrite_of_not_mem h]
    simp only [List.nodup_append, List.nodup_cons, List.not_mem_nil, not_false_eq_true,
      List.nodup_nil, and_self, List.mem_cons, or_false, true_and]
    refine ⟨distinct, ?_⟩
    rintro other inside _ rfl same
    exact h (same ▸ inside)

theorem find?_overwrite_self (name : String) (value : α) (entries : List (String × α)) :
    (overwrite name value entries).find? (·.1 = name) = some (name, value) := by
  induction entries with
  | nil => simp [overwrite]
  | cons entry rest ih =>
    unfold overwrite
    split
    next same => simp
    next different => simp [different, ih]

theorem find?_overwrite_of_ne {name other : String} (different : other ≠ name) (value : α)
    (entries : List (String × α)) :
    (overwrite name value entries).find? (·.1 = other) = entries.find? (·.1 = other) := by
  induction entries with
  | nil => simp [overwrite, Ne.symm different]
  | cons entry rest ih =>
    unfold overwrite
    split
    next same => simp [same, Ne.symm different]
    next =>
      by_cases found : entry.1 = other
      · simp [found]
      · simp [found, ih]

end Table

@[ext] structure Table (α : Type) where
  entries : List (String × α)
  distinct : (entries.map (·.1)).Nodup

namespace Table

def empty : Table α :=
  ⟨[], List.nodup_nil⟩

instance : EmptyCollection (Table α) := ⟨empty⟩

def names (table : Table α) : List String :=
  table.entries.map (·.1)

def size (table : Table α) : Nat :=
  table.entries.length

def isEmpty (table : Table α) : Bool :=
  table.entries.isEmpty

def get? (table : Table α) (name : String) : Option α :=
  (table.entries.find? (·.1 = name)).map (·.2)

def has (table : Table α) (name : String) : Bool :=
  table.entries.any (·.1 = name)

def put (table : Table α) (name : String) (value : α) : Table α :=
  ⟨overwrite name value table.entries, nodup_overwrite table.distinct name value⟩

/-- Puts every entry of `later`, in its order. -/
def merge (table later : Table α) : Table α :=
  later.entries.foldl (fun merged entry => merged.put entry.1 entry.2) table

def ofList (entries : List (String × α)) : Table α :=
  entries.foldl (fun table entry => table.put entry.1 entry.2) empty

theorem has_iff_mem_names (table : Table α) (name : String) :
    table.has name = true ↔ name ∈ table.names := by
  simp [has, names]

theorem names_put_of_has {table : Table α} {name : String} (h : table.has name = true)
    (value : α) : (table.put name value).names = table.names :=
  map_fst_overwrite_of_mem ((has_iff_mem_names table name).mp h) value

theorem names_put_of_not_has {table : Table α} {name : String} (h : ¬table.has name = true)
    (value : α) : (table.put name value).names = table.names ++ [name] :=
  map_fst_overwrite_of_not_mem (fun inside => h ((has_iff_mem_names table name).mpr inside)) value

theorem get?_put_self (table : Table α) (name : String) (value : α) :
    (table.put name value).get? name = some value := by
  simp [get?, put, find?_overwrite_self]

theorem get?_put_of_ne {name other : String} (different : other ≠ name) (table : Table α)
    (value : α) : (table.put name value).get? other = table.get? other := by
  simp [get?, put, find?_overwrite_of_ne different]

@[simp] theorem merge_empty (table : Table α) : table.merge empty = table := rfl

end Table

end CommandLine
