import CommandLine.Argument.Info

/-! Building arguments that can be resolved.

A group needs members, a sequence cannot wait for one of its parts, and a
producer must not wait itself, which keeps the resolution bounded.
-/

set_option autoImplicit false

namespace CommandLine.Argument

variable {σ : Type}

/-- The label of a producer that stands in for the argument. -/
def standIn (primary : Argument σ) : Label :=
  ⟨primary.name, some primary.display⟩

def orDefault (primary : Argument σ) (value : Value) : Argument σ :=
  .fallback primary (.fixed primary.standIn value)

def orInvoker (primary : Argument σ) (kind : String) (project : σ → Option Value) : Argument σ :=
  .fallback primary (.fromInvoker primary.standIn kind project)

def orTargeted (primary : Argument σ)
    (lookup : Input σ → Context → Except ArgumentError Value) : Argument σ :=
  .fallback primary (.targeted primary.standIn lookup)

def orFallback? (primary producer : Argument σ) : Except DefinitionError (Argument σ) :=
  if producer.isFallback then .error (.producerIsFallback primary.name producer.name)
  else .ok (.fallback primary producer)

def sequence? (label : Label) (parts : List (Argument σ))
    (compute : Context → Except ArgumentError Value) (joinsFormats : Bool) :
    Except DefinitionError (Argument σ) :=
  if parts.isEmpty then .error (.noArguments label.name)
  else match parts.find? isFallback with
    | some part => .error (.fallbackInSequence label.name part.name)
    | none => .ok (.sequence label parts compute joinsFormats)

def firstOf? (label : Label) (alternatives : List (Argument σ)) (style : AlternationStyle) :
    Except DefinitionError (Argument σ) :=
  if alternatives.isEmpty then .error (.noArguments label.name)
  else .ok (.firstOf label alternatives style)

mutual

/-- What the builders promise, at every level of the tree. -/
def WellFormed : Argument σ → Prop
  | .optional inner => inner.WellFormed
  | .named inner => inner.WellFormed
  | .mapped inner _ => inner.WellFormed
  | .fallback primary producer =>
    primary.WellFormed ∧ producer.WellFormed ∧ producer.isFallback = false
  | .sequence _ parts _ _ =>
    parts ≠ [] ∧ (∀ part ∈ parts, part.isFallback = false) ∧ AllWellFormed parts
  | .firstOf _ alternatives _ => alternatives ≠ [] ∧ AllWellFormed alternatives
  | .objectId _ inner => inner.WellFormed
  | .objectById _ _ inner => inner.WellFormed
  | _ => True

def AllWellFormed : List (Argument σ) → Prop
  | [] => True
  | argument :: rest => argument.WellFormed ∧ AllWellFormed rest

end

theorem allWellFormed_iff (arguments : List (Argument σ)) :
    AllWellFormed arguments ↔ ∀ argument ∈ arguments, argument.WellFormed := by
  induction arguments with
  | nil => simp [AllWellFormed]
  | cons argument rest ih => simp [AllWellFormed, ih]

theorem wellFormed_of_sequence? {label : Label} {parts : List (Argument σ)}
    {compute : Context → Except ArgumentError Value} {joinsFormats : Bool} {built : Argument σ}
    (members : AllWellFormed parts)
    (h : sequence? label parts compute joinsFormats = .ok built) : built.WellFormed := by
  unfold sequence? at h
  split at h
  next => cases h
  next nonempty =>
    split at h
    next => cases h
    next steady =>
      cases h
      refine ⟨by simpa using nonempty, fun part inside => ?_, members⟩
      simpa using List.find?_eq_none.mp steady part inside

theorem wellFormed_of_firstOf? {label : Label} {alternatives : List (Argument σ)}
    {style : AlternationStyle} {built : Argument σ} (members : AllWellFormed alternatives)
    (h : firstOf? label alternatives style = .ok built) : built.WellFormed := by
  unfold firstOf? at h
  split at h
  next => cases h
  next nonempty =>
    cases h
    exact ⟨by simpa using nonempty, members⟩

theorem wellFormed_of_orFallback? {primary producer built : Argument σ}
    (ofPrimary : primary.WellFormed) (ofProducer : producer.WellFormed)
    (h : orFallback? primary producer = .ok built) : built.WellFormed := by
  unfold orFallback? at h
  split at h
  next => cases h
  next steady =>
    cases h
    exact ⟨ofPrimary, ofProducer, by simpa using steady⟩

end CommandLine.Argument
