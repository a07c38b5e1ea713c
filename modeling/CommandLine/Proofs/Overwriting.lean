import CommandLine.Proofs.Table
import Mathlib.Data.List.Induction

/-! A table is what the log of its entries comes to.

Of all that was ever put into a table only the last value under each name is
left, at the place where the name came first. Copying and merging tables comes to
copying and joining their logs, so that merging is as good as replaying, and a
copy that has gone on can always be merged back.
-/

set_option autoImplicit false

namespace CommandLine

variable {α β : Type}

namespace Table

section Replay

theorem ofList_concat (log : List (String × α)) (entry : String × α) :
    ofList (log ++ [entry]) = (ofList log).put entry.1 entry.2 := by
  simp [ofList]

theorem merge_put (table later : Table α) (name : String) (value : α) :
    table.merge (later.put name value) = (table.merge later).put name value := by
  refine eq_of_names_of_get? ?_ fun other => ?_
  · rw [names_merge, names_put, names_put, names_merge]
    by_cases inLater : name ∈ later.names <;> by_cases inTable : name ∈ table.names <;>
      simp [inLater, inTable, List.filter_append]
  · rw [get?_merge, get?_put, get?_put, get?_merge]
    split <;> rfl

theorem names_empty : (empty : Table α).names = [] := rfl

theorem get?_empty (name : String) : (empty : Table α).get? name = none := rfl

theorem empty_merge (table : Table α) : empty.merge table = table := by
  refine eq_of_names_of_get? ?_ fun name => ?_
  · rw [names_merge, names_empty]
    simp
  · rw [get?_merge, get?_empty, Option.or_none]

theorem ofList_entries (table : Table α) : ofList table.entries = table :=
  empty_merge table

theorem merge_ofList (log later : List (String × α)) :
    (ofList log).merge (ofList later) = ofList (log ++ later) := by
  -- What is put last into the later table is put last into the result, so the induction is from
  -- that end.
  induction later using List.reverseRecOn with
  | nil => rw [List.append_nil]; rfl
  | append_singleton earlier entry ih =>
    rw [ofList_concat, merge_put, ih, ← List.append_assoc, ofList_concat]

theorem merge_assoc (first second third : Table α) :
    (first.merge second).merge third = first.merge (second.merge third) := by
  rw [← ofList_entries first, ← ofList_entries second, ← ofList_entries third]
  simp only [merge_ofList, List.append_assoc]

theorem merge_self (table : Table α) : table.merge table = table :=
  merge_eq_of_prefix List.prefix_rfl

theorem names_ofList (log : List (String × α)) :
    (ofList log).names = (log.map (·.1)).eraseDups := by
  induction log using List.reverseRecOn with
  | nil => rfl
  | append_singleton earlier entry ih =>
    rw [ofList_concat, names_put, ih, List.map_append, List.eraseDups_append, List.map_singleton]
    by_cases inside : entry.1 ∈ earlier.map (·.1)
    · simp [List.mem_eraseDups, inside, List.cons_removeAll]
    · simp [List.mem_eraseDups, inside, List.cons_removeAll, List.eraseDups_cons]

theorem get?_ofList (log : List (String × α)) (name : String) :
    (ofList log).get? name = ((log.filter (·.1 = name)).map (·.2)).getLast? := by
  induction log using List.reverseRecOn with
  | nil => rfl
  | append_singleton earlier entry ih =>
    rw [ofList_concat, get?_put, ih]
    by_cases same : entry.1 = name
    · simp [same]
    · simp [same, Ne.symm same]

end Replay

end Table

/-- What can be done with tables in numbered slots, or with whatever stands in for tables. A view
of a table reads the table itself, so that there is one way to fork. -/
inductive Edit (α : Type) where
  | new
  | fork (source : Nat)
  | put (slot : Nat) (name : String) (value : α)
  | merge (slot source : Nat)

structure Keeper (α β : Type) where
  blank : β
  put : β → String → α → β
  merge : β → β → β

namespace Keeper

def tables : Keeper α (Table α) :=
  ⟨.empty, .put, .merge⟩

/-- Keeps everything that was put, in its order, and forgets nothing. -/
def logs : Keeper α (List (String × α)) :=
  ⟨[], fun log name value => log ++ [(name, value)], fun log later => log ++ later⟩

end Keeper

namespace Edit

def target? : Edit α → Option Nat
  | .put slot _ _ => some slot
  | .merge slot _ => some slot
  | _ => none

def perform (keeper : Keeper α β) (held : List β) : Edit α → List β
  | .new => held ++ [keeper.blank]
  | .fork source => held ++ held[source]?.toList
  | .put slot name value => held.modify slot (keeper.put · name value)
  | .merge slot source =>
    held.modify slot fun content => held[source]?.elim content (keeper.merge content)

def performAll (keeper : Keeper α β) (held : List β) (edits : List (Edit α)) : List β :=
  edits.foldl (perform keeper) held

section

variable {keeper : Keeper α β} {held : List β} {slot : Nat}

theorem getElem?_perform {content : β} (holds : held[slot]? = some content) {edit : Edit α}
    (elsewhere : edit.target? ≠ some slot) : (edit.perform keeper held)[slot]? = some content := by
  have inside : slot < held.length := (List.getElem?_eq_some_iff.mp holds).1
  cases edit with
  | new => rw [perform, List.getElem?_append_left inside, holds]
  | fork source => rw [perform, List.getElem?_append_left inside, holds]
  | put other name value =>
    have apart : other ≠ slot := fun same => elsewhere (congrArg some same)
    rw [perform, List.getElem?_modify_ne _ _ apart, holds]
  | merge other source =>
    have apart : other ≠ slot := fun same => elsewhere (congrArg some same)
    rw [perform, List.getElem?_modify_ne _ _ apart, holds]

theorem getElem?_performAll {content : β} (holds : held[slot]? = some content)
    {edits : List (Edit α)} (elsewhere : ∀ edit ∈ edits, edit.target? ≠ some slot) :
    (performAll keeper held edits)[slot]? = some content := by
  induction edits generalizing held with
  | nil => exact holds
  | cons edit rest ih =>
    obtain ⟨here, later⟩ := List.forall_mem_cons.mp elsewhere
    exact ih (getElem?_perform holds here) later

end

section

variable {held : List (Table α)} {slot : Nat} {table : Table α}

theorem exists_of_perform (edit : Edit α) (holds : held[slot]? = some table) :
    ∃ after, (edit.perform .tables held)[slot]? = some after ∧ table.names <+: after.names := by
  by_cases written : edit.target? = some slot
  · cases edit with
    | new => cases written
    | fork source => cases written
    | put other name value =>
      obtain rfl := Option.some.inj written
      have put : (perform .tables held (.put other name value))[other]? =
          some (table.put name value) := by simp [perform, holds, Keeper.tables]
      exact ⟨_, put, table.prefix_names_put name value⟩
    | merge other source =>
      obtain rfl := Option.some.inj written
      cases found : held[source]? with
      | none => exact ⟨table, by simp [perform, found, holds], List.prefix_rfl⟩
      | some later =>
        have merged : (perform .tables held (.merge other source))[other]? =
            some (table.merge later) := by simp [perform, found, holds, Keeper.tables]
        exact ⟨_, merged, table.prefix_names_merge later⟩
  · exact ⟨table, getElem?_perform holds written, List.prefix_rfl⟩

theorem exists_of_performAll (edits : List (Edit α)) (holds : held[slot]? = some table) :
    ∃ after, (performAll .tables held edits)[slot]? = some after ∧
      table.names <+: after.names := by
  induction edits generalizing held table with
  | nil => exact ⟨table, holds, List.prefix_rfl⟩
  | cons edit rest ih =>
    obtain ⟨next, holdsNext, order⟩ := exists_of_perform edit holds
    obtain ⟨after, holdsAfter, later⟩ := ih holdsNext
    exact ⟨after, holdsAfter, order.trans later⟩

end

theorem map_modify {γ : Type} {content : β → γ} {change : β → β} {change' : γ → γ}
    (agree : ∀ kept, content (change kept) = change' (content kept)) (held : List β) (slot : Nat) :
    (held.modify slot change).map content = (held.map content).modify slot change' := by
  apply List.ext_getElem?
  intro index
  simp only [List.getElem?_map, List.getElem?_modify]
  cases held[index]? with
  | none => rfl
  | some kept => by_cases same : slot = index <;> simp [same, agree]

/-- Every edit comes to the same for tables and for their logs. -/
theorem map_perform (edit : Edit α) (held : List (List (String × α))) :
    (edit.perform .logs held).map Table.ofList = edit.perform .tables (held.map Table.ofList) := by
  cases edit with
  | new => simp [perform, Keeper.logs, Keeper.tables, Table.ofList]
  | fork source => cases found : held[source]? <;> simp [perform, found]
  | put slot name value =>
    exact map_modify (fun log => Table.ofList_concat log (name, value)) held slot
  | merge slot source =>
    simp only [perform, List.getElem?_map]
    refine map_modify (fun log => ?_) held slot
    cases held[source]? with
    | none => rfl
    | some later => exact (Table.merge_ofList log later).symm

theorem map_performAll (edits : List (Edit α)) (held : List (List (String × α))) :
    (performAll .logs held edits).map Table.ofList =
      performAll .tables (held.map Table.ofList) edits := by
  induction edits generalizing held with
  | nil => rfl
  | cons edit rest ih =>
    simp only [performAll, List.foldl_cons]
    rw [← map_perform]
    exact ih _

end Edit

/-- Merging is associative, has the empty table as its identity, and changes nothing between equal
tables. A table stays as it is whatever becomes of its copy, and is the copy once that is merged
back. Names are in the order in which they were first put, with the last value under each. -/
theorem Table.overwriting_laws :
    (∀ first second third : Table α,
        (first.merge second).merge third = first.merge (second.merge third)) ∧
      (∀ table : Table α,
        Table.empty.merge table = table ∧ table.merge .empty = table ∧
          table.merge table = table) ∧
      (∀ (held : List (Table α)) (slot : Nat) (table : Table α), held[slot]? = some table →
        ∀ edits : List (Edit α), (∀ edit ∈ edits, edit.target? ≠ some slot) →
          let after := Edit.performAll .tables held (.fork slot :: edits)
          after[slot]? = some table ∧ ∃ copy, after[held.length]? = some copy ∧
            table.merge copy = copy ∧
              (Edit.perform .tables after (.merge slot held.length))[slot]? = some copy) ∧
      ∀ (edits : List (Edit α)) (slot : Nat) (table : Table α),
        (Edit.performAll .tables [] edits)[slot]? = some table →
          ∃ log, (Edit.performAll .logs [] edits)[slot]? = some log ∧
            table.names.Nodup ∧ table.names = (log.map (·.1)).eraseDups ∧
            ∀ name, table.get? name = ((log.filter (·.1 = name)).map (·.2)).getLast? := by
  refine ⟨merge_assoc, fun table => ⟨empty_merge table, merge_empty table, merge_self table⟩,
    ?_, ?_⟩
  · intro held slot table holds edits elsewhere after
    have kept : after[slot]? = some table :=
      Edit.getElem?_performAll holds (List.forall_mem_cons.mpr ⟨nofun, elsewhere⟩)
    have forked : (Edit.perform .tables held (.fork slot))[held.length]? = some table := by
      simp [Edit.perform, holds]
    obtain ⟨copy, became, order⟩ := Edit.exists_of_performAll edits forked
    have became : after[held.length]? = some copy := became
    have replaced : table.merge copy = copy := merge_eq_of_prefix order
    refine ⟨kept, copy, became, replaced, ?_⟩
    simp [Edit.perform, kept, became, Keeper.tables, replaced]
  · intro edits slot table holds
    -- The tables of the run are what its logs come to.
    have same := Edit.map_performAll edits ([] : List (List (String × α)))
    rw [List.map_nil] at same
    rw [← same, List.getElem?_map] at holds
    obtain ⟨log, kept, rfl⟩ := Option.map_eq_some_iff.mp holds
    exact ⟨log, kept, nodup_names _, names_ofList log, get?_ofList log⟩

/-- A copy takes over another table, while its original stays as it is; and a name that is put
twice keeps its first place and its last value. -/
theorem Table.overwriting_laws_prices :
    let prices : Table Nat := .ofList [("apple", 1), ("pear", 2)]
    let edits : List (Edit Nat) := [.new, .put 2 "plum" 5, .put 2 "apple" 6, .merge 1 2]
    let after := Edit.performAll .tables [prices] (.fork 0 :: edits)
    let season : List (Edit Nat) :=
      [.new, .put 0 "apple" 1, .new, .put 1 "plum" 5, .put 1 "apple" 6, .merge 0 1]
    ([prices][0]? = some prices ∧ ∀ edit ∈ edits, edit.target? ≠ some 0) ∧
      (after[0]? = some prices ∧ ∃ copy, after[1]? = some copy ∧
        copy.entries = [("apple", 6), ("pear", 2), ("plum", 5)] ∧ prices.merge copy = copy) ∧
      ∃ table, (Edit.performAll .tables [] season)[0]? = some table ∧
        table.names = ["apple", "plum"] ∧ table.get? "apple" = some 6 := by
  intro prices edits after season
  have apart : ∀ edit ∈ edits, edit.target? ≠ some 0 := by decide
  obtain ⟨-, -, copies, runs⟩ := overwriting_laws (α := Nat)
  obtain ⟨kept, copy, became, replaced, -⟩ := copies [prices] 0 prices rfl edits apart
  obtain rfl : after[1] = copy := Option.some.inj became
  obtain ⟨log, recorded, -, names, held⟩ := runs season 0 _ rfl
  obtain rfl : [("apple", 1), ("plum", 5), ("apple", 6)] = log := Option.some.inj recorded
  exact ⟨⟨rfl, apart⟩, ⟨kept, _, became, rfl, replaced⟩, _, rfl, names, held "apple"⟩

end CommandLine
