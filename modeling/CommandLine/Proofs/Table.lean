import CommandLine.Table

/-! Tables by their names and lookups.

A table is known by the order of its names and by what each of them holds, so
putting, merging and forking are described through these two alone.
-/

set_option autoImplicit false

namespace CommandLine.Table

variable {α : Type}

theorem mem_names_iff (table : Table α) (name : String) :
    name ∈ table.names ↔ ∃ value, table.get? name = some value := by
  unfold names get?
  rw [List.mem_map]
  constructor
  · rintro ⟨entry, inside, rfl⟩
    have found : (table.entries.find? (·.1 = entry.1)).isSome = true := by
      rw [List.find?_isSome]
      exact ⟨entry, inside, by simp⟩
    obtain ⟨other, held⟩ := Option.isSome_iff_exists.mp found
    exact ⟨other.2, by rw [held]; rfl⟩
  · rintro ⟨value, held⟩
    obtain ⟨entry, found, -⟩ := Option.map_eq_some_iff.mp held
    exact ⟨entry, List.mem_of_find?_eq_some found, by simpa using List.find?_some found⟩

theorem get?_eq_none_iff (table : Table α) (name : String) :
    table.get? name = none ↔ name ∉ table.names := by
  rw [mem_names_iff, Option.eq_none_iff_forall_ne_some]
  simp

theorem has_iff_get? (table : Table α) (name : String) :
    table.has name = true ↔ ∃ value, table.get? name = some value := by
  rw [has_iff_mem_names, mem_names_iff]

theorem has_put_self (table : Table α) (name : String) (value : α) :
    (table.put name value).has name = true :=
  (has_iff_get? _ _).mpr ⟨value, get?_put_self table name value⟩

theorem nodup_names (table : Table α) : table.names.Nodup :=
  table.distinct

theorem names_put (table : Table α) (name : String) (value : α) :
    (table.put name value).names =
      if name ∈ table.names then table.names else table.names ++ [name] := by
  split
  next inside => exact names_put_of_has ((has_iff_mem_names table name).mpr inside) value
  next outside =>
    exact names_put_of_not_has (fun inside => outside ((has_iff_mem_names table name).mp inside))
      value

theorem prefix_names_put (table : Table α) (name : String) (value : α) :
    table.names <+: (table.put name value).names := by
  rw [names_put]
  split
  · exact List.prefix_rfl
  · exact List.prefix_append ..

theorem get?_put (table : Table α) (name other : String) (value : α) :
    (table.put name value).get? other = if other = name then some value else table.get? other := by
  split
  next same => rw [same, get?_put_self]
  next different => exact get?_put_of_ne different table value

private theorem lookup_of_mem {entries : List (String × α)}
    (distinct : (entries.map (·.1)).Nodup) {entry : String × α} (inside : entry ∈ entries) :
    entries.find? (·.1 = entry.1) = some entry := by
  induction entries with
  | nil => cases inside
  | cons head rest ih =>
    rw [List.map_cons, List.nodup_cons] at distinct
    rcases List.mem_cons.mp inside with rfl | inRest
    · simp
    · have different : head.1 ≠ entry.1 := fun same =>
        distinct.1 (same ▸ List.mem_map_of_mem inRest)
      simp [different, ih distinct.2 inRest]

theorem get?_of_mem {table : Table α} {entry : String × α} (inside : entry ∈ table.entries) :
    table.get? entry.1 = some entry.2 := by
  rw [get?, lookup_of_mem table.distinct inside]
  rfl

/-- The order of the names and the value under each of them make up a table. -/
theorem eq_of_names_of_get? {left right : Table α} (order : left.names = right.names)
    (held : ∀ name, left.get? name = right.get? name) : left = right := by
  ext1
  have length : left.entries.length = right.entries.length := by
    simpa [names] using congrArg List.length order
  refine List.ext_getElem length fun i inLeft inRight => ?_
  have name : left.entries[i].1 = right.entries[i].1 := by
    have same := congrArg (·[i]?) order
    simpa [names, inLeft, inRight] using same
  have ofLeft := get?_of_mem (List.getElem_mem inLeft)
  have ofRight := get?_of_mem (List.getElem_mem inRight)
  rw [held, name, ofRight, Option.some.injEq] at ofLeft
  exact Prod.ext name ofLeft.symm

section Merge

private theorem get?_foldl_put (entries : List (String × α)) (table : Table α)
    (distinct : (entries.map (·.1)).Nodup) (name : String) :
    (entries.foldl (fun merged entry => merged.put entry.1 entry.2) table).get? name =
      ((entries.find? (·.1 = name)).map (·.2)).or (table.get? name) := by
  induction entries generalizing table with
  | nil => simp
  | cons entry rest ih =>
    rw [List.map_cons, List.nodup_cons] at distinct
    rw [List.foldl_cons, ih _ distinct.2, get?_put]
    by_cases same : name = entry.1
    · have absent : rest.find? (·.1 = name) = none := by
        rw [List.find?_eq_none]
        intro other inside named
        simp only [decide_eq_true_eq] at named
        exact distinct.1 (same ▸ named ▸ List.mem_map_of_mem inside)
      simp [same, same ▸ absent]
    · simp [same, Ne.symm same]

private theorem names_foldl_put (entries : List (String × α)) (table : Table α)
    (distinct : (entries.map (·.1)).Nodup) :
    (entries.foldl (fun merged entry => merged.put entry.1 entry.2) table).names =
      table.names ++ (entries.map (·.1)).filter (· ∉ table.names) := by
  induction entries generalizing table with
  | nil => simp
  | cons entry rest ih =>
    rw [List.map_cons, List.nodup_cons] at distinct
    rw [List.foldl_cons, ih _ distinct.2, names_put]
    split
    next inside => simp [inside]
    next outside =>
      have apart : (rest.map (·.1)).filter (· ∉ table.names ++ [entry.1]) =
          (rest.map (·.1)).filter (· ∉ table.names) := by
        refine List.filter_congr fun name inside => ?_
        have different : name ≠ entry.1 := fun same => distinct.1 (same ▸ inside)
        simp [different]
      rw [apart]
      simp [outside]

theorem get?_merge (table later : Table α) (name : String) :
    (table.merge later).get? name = (later.get? name).or (table.get? name) :=
  get?_foldl_put later.entries table later.distinct name

theorem names_merge (table later : Table α) :
    (table.merge later).names = table.names ++ later.names.filter (· ∉ table.names) :=
  names_foldl_put later.entries table later.distinct

theorem prefix_names_merge (table later : Table α) :
    table.names <+: (table.merge later).names := by
  rw [names_merge]
  exact List.prefix_append ..

theorem has_merge (table later : Table α) (name : String) :
    (table.merge later).has name = (later.has name || table.has name) := by
  rw [Bool.eq_iff_iff, Bool.or_eq_true]
  simp only [has_iff_mem_names, names_merge, List.mem_append, List.mem_filter, decide_eq_true_eq]
  by_cases inside : name ∈ table.names <;> simp [inside]

/-- A table that has the names of another one in front replaces all it holds. -/
theorem merge_eq_of_prefix {before after : Table α} (order : before.names <+: after.names) :
    before.merge after = after := by
  obtain ⟨added, names⟩ := order
  refine eq_of_names_of_get? ?_ fun name => ?_
  · have distinct := after.nodup_names
    rw [← names, List.nodup_append] at distinct
    have fresh : added.filter (· ∉ before.names) = added := by
      rw [List.filter_eq_self]
      intro name inside
      simp only [decide_eq_true_eq]
      exact fun earlier => distinct.2.2 name earlier name inside rfl
    have old : before.names.filter (· ∉ before.names) = [] := by
      rw [List.filter_eq_nil_iff]
      simp
    rw [names_merge, ← names, List.filter_append, fresh, old, List.nil_append]
  · rw [get?_merge]
    cases held : after.get? name with
    | some value => rfl
    | none =>
      rw [Option.none_or, get?_eq_none_iff]
      intro earlier
      have later : name ∈ after.names := names ▸ List.mem_append_left added earlier
      exact (get?_eq_none_iff after name).mp held later

end Merge

/-- `after` came from `before` by storing under `stored` alone: what was there keeps its place,
and only under these names can anything be new. -/
structure StoredUnder (stored : List String) (before after : Table α) : Prop where
  order : before.names <+: after.names
  apart : ∀ name ∉ stored, after.get? name = before.get? name

namespace StoredUnder

variable {stored : List String} {before middle after : Table α}

theorem refl (stored : List String) (table : Table α) : StoredUnder stored table table :=
  ⟨List.prefix_rfl, fun _ _ => rfl⟩

theorem trans (first : StoredUnder stored before middle)
    (second : StoredUnder stored middle after) : StoredUnder stored before after :=
  ⟨first.order.trans second.order, fun name outside =>
    (second.apart name outside).trans (first.apart name outside)⟩

theorem mono {more : List String} (h : StoredUnder stored before after)
    (inside : ∀ name ∈ stored, name ∈ more) : StoredUnder more before after :=
  ⟨h.order, fun name outside => h.apart name fun member => outside (inside name member)⟩

theorem put {name : String} (h : StoredUnder stored before after) (inside : name ∈ stored)
    (value : α) : StoredUnder stored before (after.put name value) := by
  refine ⟨h.order.trans (prefix_names_put after name value), fun other outside => ?_⟩
  have different : other ≠ name := fun same => outside (same ▸ inside)
  rw [get?_put_of_ne different, h.apart other outside]

theorem has (h : StoredUnder stored before after) {name : String}
    (inside : before.has name = true) : after.has name = true := by
  rw [has_iff_mem_names] at inside ⊢
  exact h.order.subset inside

theorem eq_of_nil (h : StoredUnder [] before after) : after = before := by
  obtain ⟨added, order⟩ := h.order
  have nothing : added = [] := by
    rw [List.eq_nil_iff_forall_not_mem]
    intro name inside
    have later : name ∈ after.names := order ▸ List.mem_append_right _ inside
    obtain ⟨value, held⟩ := (mem_names_iff after name).mp later
    have earlier : name ∈ before.names :=
      (mem_names_iff before name).mpr ⟨value, (h.apart name List.not_mem_nil).symm.trans held⟩
    have distinct := after.nodup_names
    rw [← order, List.nodup_append] at distinct
    exact distinct.2.2 name earlier name inside rfl
  refine eq_of_names_of_get? ?_ fun name => h.apart name List.not_mem_nil
  rw [← order, nothing, List.append_nil]

theorem merge_eq (h : StoredUnder stored before after) : before.merge after = after :=
  merge_eq_of_prefix h.order

end StoredUnder

end CommandLine.Table
