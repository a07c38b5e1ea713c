import CommandLine.Error

/-! The tree of arguments that a command is described by.

Leaves read tokens, producers yield values without reading any, and the rest
combine other arguments. Names are what values are stored under; display names
are what the user sees.
-/

set_option autoImplicit false

namespace CommandLine

structure Label where
  name : String
  display : Option String
  deriving DecidableEq

namespace Label

def shown (label : Label) : String :=
  label.display.getD label.name

end Label

structure Filter (σ : Type) where
  accepts : Input σ → Context → Value → Bool
  /-- Takes the argument's display name, the tokens it read and the value. -/
  message : String → String → Value → String

namespace Filter

def refusal (argument input : String) (_ : Value) : String :=
  Text.quoted input ++ " is not an accepted " ++ argument

def any {σ : Type} : Filter σ :=
  ⟨fun _ _ _ => true, refusal⟩

def judge {σ : Type} (filter : Filter σ) (input : Input σ) (context : Context)
    (argument typed : String) (value : Value) : Except ArgumentError Value :=
  if filter.accepts input context value then .ok value
  else .error (.rejected argument typed (filter.message argument typed value) value)

end Filter

/-- Candidate identifiers for a partly typed one. -/
structure IdSource (σ : Type) where
  render : Value → String
  suggestions : Input σ → Context → String → List Value
  pinned : Input σ → Context → String → List Value

structure IdRules (σ : Type) where
  label : Label
  source : IdSource σ
  filter : Filter σ
  minimumTyped : Nat

structure ObjectRules (σ : Type) where
  label : Label
  find : Input σ → Context → Value → Except ArgumentError (Option Value)
  filter : Filter σ

inductive AlternationStyle where
  | listed
  | reversed
  | displayName
  deriving DecidableEq

inductive Argument (σ : Type) where
  | literal (name word : String)
  | integer (label : Label) (kind : IntegerKind)
  | text (label : Label) (joinsRest : Bool)
  | boolean (label : Label)
  /-- Waits whenever its token is not `accepted`, and notes how it was asked to resolve. -/
  | recorder (name accepted : String)
  | fixed (label : Label) (value : Value)
  | fromInvoker (label : Label) (kind : String) (project : σ → Option Value)
  | targeted (label : Label) (lookup : Input σ → Context → Except ArgumentError Value)
  | optional (inner : Argument σ)
  /-- The token starts with the display name and an equals sign. -/
  | named (inner : Argument σ)
  | mapped (inner : Argument σ) (mapping : Value → Except ArgumentError Value)
  /-- Where the primary argument gives no value, the producer may. -/
  | fallback (primary producer : Argument σ)
  | sequence (label : Label) (parts : List (Argument σ))
      (compute : Context → Except ArgumentError Value) (joinsFormats : Bool)
  | firstOf (label : Label) (alternatives : List (Argument σ)) (style : AlternationStyle)
  | objectId (rules : IdRules σ) (inner : Argument σ)
  | objectById (rules : ObjectRules σ) (id : IdRules σ) (inner : Argument σ)

end CommandLine
