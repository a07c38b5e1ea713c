import CommandLine.Proofs.Table
import CommandLine.Signal
import Mathlib.Data.Option.Basic

/-! Ways of looking at what arguments store.

A sight hides the entries under some names and blurs the values of the others.
What it cannot tell apart is alike to it: contexts that it sees as the same one,
and the values, errors and signals that differ only in what it blurs.
-/

set_option autoImplicit false

namespace CommandLine

namespace Value

mutual

/-- The value without what contexts hold under `name`, at any depth. -/
def without (name : String) : Value → Value
  | .context entries => .context (withoutEntries name entries)
  | value => value

def withoutEntries (name : String) : List (String × Value) → List (String × Value)
  | [] => []
  | (other, value) :: rest =>
    if other = name then withoutEntries name rest
    else (other, without name value) :: withoutEntries name rest

end

theorem withoutEntries_eq (name : String) (entries : List (String × Value)) :
    withoutEntries name entries =
      (entries.filter fun entry => !decide (entry.1 = name)).map fun entry =>
        (entry.1, entry.2.without name) := by
  induction entries with
  | nil => rfl
  | cons entry rest ih => by_cases same : entry.1 = name <;> simp [withoutEntries, same, ih]

end Value

structure Sight where
  hides : String → Bool
  blur : Value → Value

namespace Sight

def full : Sight :=
  ⟨fun _ => false, id⟩

def except (name : String) : Sight :=
  ⟨fun other => decide (other = name), id⟩

/-- Does not see the entry under `name`, nor one in any context that is stored as a value. -/
def throughout (name : String) : Sight :=
  ⟨fun other => decide (other = name), Value.without name⟩

def see (sight : Sight) (context : Context) : Context where
  entries := (context.entries.filter fun entry => !sight.hides entry.1).map fun entry =>
    (entry.1, sight.blur entry.2)
  distinct := by
    rw [List.map_map]
    exact context.distinct.sublist (List.filter_sublist.map _)

variable {sight : Sight}

theorem names_see (context : Context) :
    (sight.see context).names = context.names.filter fun name => !sight.hides name := by
  simp only [see, Table.names, List.map_map, List.filter_map]
  rfl

theorem get?_see (context : Context) (name : String) :
    (sight.see context).get? name =
      if sight.hides name then none else (context.get? name).map sight.blur := by
  simp only [see, Table.get?]
  induction context.entries with
  | nil => simp
  | cons entry rest ih =>
    by_cases same : entry.1 = name
    · cases hidden : sight.hides name with
      | true => simpa [same, hidden] using ih
      | false => simp [same, hidden]
    · cases hidden : sight.hides entry.1 <;> simpa [same, hidden] using ih

theorem see_put (context : Context) (name : String) (value : Value) :
    sight.see (context.put name value) =
      if sight.hides name then sight.see context
      else (sight.see context).put name (sight.blur value) := by
  cases hidden : sight.hides name with
  | true =>
    refine Table.eq_of_names_of_get? ?_ fun other => ?_
    · simp only [names_see, Table.names_put, if_true]
      split <;> simp [hidden]
    · simp only [get?_see, Table.get?_put, if_true]
      by_cases same : other = name <;> simp [same, hidden]
  | false =>
    refine Table.eq_of_names_of_get? ?_ fun other => ?_
    · simp only [names_see, Table.names_put, Bool.false_eq_true, if_false, List.mem_filter]
      by_cases inside : name ∈ context.names <;> simp [inside, hidden]
    · simp only [get?_see, Table.get?_put, Bool.false_eq_true, if_false]
      by_cases same : other = name <;> simp [same, hidden]

theorem see_merge (context later : Context) :
    sight.see (context.merge later) = (sight.see context).merge (sight.see later) := by
  refine Table.eq_of_names_of_get? ?_ fun name => ?_
  · simp only [names_see, Table.names_merge, List.filter_append, List.filter_filter]
    congr 1
    refine List.filter_congr fun name _ => ?_
    cases hidden : sight.hides name <;> simp [hidden]
  · simp only [get?_see, Table.get?_merge]
    cases sight.hides name with
    | true => rfl
    | false => cases later.get? name <;> rfl

@[simp] theorem see_full (context : Context) : full.see context = context := by
  ext1
  simp [see, full]

def error (sight : Sight) : ArgumentError → ArgumentError
  | .rejected argument input message value => .rejected argument input message (sight.blur value)
  | cause => cause

mutual

def signal (sight : Sight) : Signal → Signal
  | .raised argument error => .raised argument (sight.error error)
  | .wrapped argument inner => .wrapped argument (sight.signal inner)
  | .branched argument index first others =>
    .branched argument index (sight.signal first) (sight.branches others)

def branches (sight : Sight) : List (Nat × Signal) → List (Nat × Signal)
  | [] => []
  | (index, signal) :: rest => (index, sight.signal signal) :: sight.branches rest

end

theorem branches_eq_map (branches : List (Nat × Signal)) :
    sight.branches branches = branches.map fun branch => (branch.1, sight.signal branch.2) := by
  induction branches with
  | nil => rfl
  | cons branch rest ih => simp [Sight.branches, ih]

theorem rootCause_signal :
    (signal : Signal) → (sight.signal signal).rootCause = sight.error signal.rootCause
  | .raised .. => rfl
  | .wrapped _ inner => rootCause_signal inner
  | .branched _ _ first _ => rootCause_signal first

theorem inner?_signal (signal : Signal) :
    (sight.signal signal).inner? = signal.inner?.map sight.signal := by
  cases signal <;> rfl

@[simp] theorem isCircumstantial_error (cause : ArgumentError) :
    (sight.error cause).isCircumstantial = cause.isCircumstantial := by
  cases cause <;> rfl

@[simp] theorem isRejection_error (cause : ArgumentError) :
    (sight.error cause).isRejection = cause.isRejection := by
  cases cause <;> rfl

@[simp] theorem error_full (cause : ArgumentError) : full.error cause = cause := by
  cases cause <;> rfl

mutual

theorem signal_full : (signal : Signal) → full.signal signal = signal
  | .raised _ error => by rw [signal, error_full]
  | .wrapped _ inner => by rw [signal, signal_full inner]
  | .branched _ _ first others => by rw [signal, signal_full first, branches_full others]

theorem branches_full : (branches : List (Nat × Signal)) → full.branches branches = branches
  | [] => rfl
  | (_, signal) :: rest => by rw [Sight.branches, signal_full signal, branches_full rest]

end

section Alike

variable (sight)

def Contexts (left right : Context) : Prop :=
  sight.see left = sight.see right

def Values (left right : Value) : Prop :=
  sight.blur left = sight.blur right

def Errors (left right : ArgumentError) : Prop :=
  sight.error left = sight.error right

def Signals (left right : Signal) : Prop :=
  sight.signal left = sight.signal right

inductive Failures : Failure → Failure → Prop where
  | error {left right : ArgumentError} (same : sight.Errors left right) :
    Failures (.error left) (.error right)
  | deferred {left right : Signal} (same : sight.Signals left right) :
    Failures (.deferred left) (.deferred right)

variable {sight}

namespace Contexts

variable {left right left' right' : Context}

theorem put (same : sight.Contexts left right) (name : String) {value value' : Value}
    (blurred : sight.Values value value') :
    sight.Contexts (left.put name value) (right.put name value') := by
  rw [Contexts, see_put, see_put, same, blurred]

theorem merge (same : sight.Contexts left right) (later : sight.Contexts left' right') :
    sight.Contexts (left.merge left') (right.merge right') := by
  rw [Contexts, see_merge, see_merge, same, later]

theorem eq (same : full.Contexts left right) : left = right := by
  rwa [Contexts, see_full, see_full] at same

end Contexts

theorem Values.eq {left right : Value} (same : full.Values left right) : left = right :=
  same

theorem Errors.eq {left right : ArgumentError} (same : full.Errors left right) : left = right := by
  rwa [Errors, error_full, error_full] at same

theorem Errors.rejected {left right : Value} (same : sight.Values left right)
    (argument input message : String) :
    sight.Errors (.rejected argument input message left)
      (.rejected argument input message right) := by
  rw [Errors, error, error, same]

theorem Errors.isCircumstantial {left right : ArgumentError} (same : sight.Errors left right) :
    left.isCircumstantial = right.isCircumstantial := by
  rw [← isCircumstantial_error left, same, isCircumstantial_error]

theorem Errors.isRejection {left right : ArgumentError} (same : sight.Errors left right) :
    left.isRejection = right.isRejection := by
  rw [← isRejection_error left, same, isRejection_error]

namespace Signals

variable {left right : Signal}

theorem eq (same : full.Signals left right) : left = right := by
  rwa [Signals, signal_full, signal_full] at same

theorem rootCause (same : sight.Signals left right) :
    sight.Errors left.rootCause right.rootCause := by
  rw [Errors, ← rootCause_signal, same, rootCause_signal]

theorem raised {cause cause' : ArgumentError} (same : sight.Errors cause cause')
    (argument : String) : sight.Signals (.raised argument cause) (.raised argument cause') := by
  rw [Signals, signal, signal, same]

theorem wrapped (same : sight.Signals left right) (argument : String) :
    sight.Signals (.wrapped argument left) (.wrapped argument right) := by
  rw [Signals, signal, signal, same]

theorem inner? (same : sight.Signals left right) :
    Option.Rel sight.Signals left.inner? right.inner? := by
  have inner := congrArg Signal.inner? same
  rw [inner?_signal, inner?_signal] at inner
  cases l : left.inner? with
  | none =>
    cases r : right.inner? with
    | none => exact .none
    | some => simp [l, r] at inner
  | some =>
    cases r : right.inner? with
    | none => simp [l, r] at inner
    | some =>
      rw [l, r] at inner
      exact .some (Option.some.inj inner)

end Signals

namespace Failures

variable {left right : Failure}

theorem rootCause (same : sight.Failures left right) :
    sight.Errors left.rootCause right.rootCause := by
  cases same with
  | error same => exact same
  | deferred same => exact same.rootCause

theorem eq (same : full.Failures left right) : left = right := by
  cases same with
  | error same => rw [same.eq]
  | deferred same => rw [same.eq]

end Failures

/-- What is alike to the one sight is alike to the other. -/
structure Finer (near far : Sight) : Prop where
  contexts : ∀ ⦃left right⦄, near.Contexts left right → far.Contexts left right
  errors : ∀ ⦃left right⦄, near.Errors left right → far.Errors left right

theorem Finer.refl (sight : Sight) : Finer sight sight :=
  ⟨fun _ _ => id, fun _ _ => id⟩

theorem finer_full (sight : Sight) : Finer full sight :=
  ⟨fun _ _ same => congrArg sight.see same.eq, fun _ _ same => congrArg sight.error same.eq⟩

end Alike

end Sight

end CommandLine
