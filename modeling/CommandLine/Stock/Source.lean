import CommandLine.Argument.Basic
import CommandLine.Text.CaseFold

/-! Ready-made sources of identifiers and objects, for an invoker described by named fields. -/

set_option autoImplicit false

namespace CommandLine.Stock

abbrev Profile := Table Value

inductive Rendering where
  | plain
  | upper
  | hash
  | spaced
  deriving DecidableEq

namespace Rendering

def apply (rendering : Rendering) (id : Value) : String :=
  match rendering with
  | .plain => id.shown
  | .upper => Text.upper id.shown
  | .hash => "#" ++ id.shown
  | .spaced => String.ofList (id.shown.toList.map fun c => if c = '_' then ' ' else c)

end Rendering

inductive Matching where
  | leading
  | leadingIgnoringCase
  | containing
  | all
  deriving DecidableEq

namespace Matching

def holds (matching : Matching) (rendered typed : String) : Bool :=
  match matching with
  | .leading => Text.startsWith rendered typed
  | .leadingIgnoringCase => Text.startsIgnoringCase rendered typed
  | .containing => Text.occursIn typed rendered
  | .all => true

end Matching

/-- Identifiers from a list, before them pinned ones and one that the invoker's field holds. -/
structure Listing where
  ids : List Value
  matching : Matching
  rendering : Rendering
  pinned : List Value
  pinnedField : Option String

namespace Listing

def keep (listing : Listing) (typed : String) (ids : List Value) : List Value :=
  ids.filter fun id => listing.matching.holds (listing.rendering.apply id) typed

def source (listing : Listing) : IdSource Profile where
  render := listing.rendering.apply
  suggestions := fun _ _ typed => listing.keep typed listing.ids
  pinned := fun input _ typed =>
    listing.keep typed (listing.pinned ++ (listing.pinnedField.bind input.invoker.get?).toList)

end Listing

/-- A value from the invoker's field or else from the context. -/
structure Lookup where
  field : Option String
  fromContext : Option String
  cause : ArgumentError

namespace Lookup

def apply (lookup : Lookup) (input : Input Profile) (context : Context) :
    Except ArgumentError Value :=
  match (lookup.field.bind input.invoker.get?).or (lookup.fromContext.bind context.get?) with
  | some value => .ok value
  | none => .error lookup.cause

end Lookup

structure Registry where
  objects : List Value
  errors : List (Value × ArgumentError)

namespace Registry

def hasId (id : Value) : Value → Bool
  | .object own _ _ => own = id
  | _ => false

def find (registry : Registry) (id : Value) : Except ArgumentError (Option Value) :=
  match registry.errors.find? (·.1 = id) with
  | some (_, cause) => .error cause
  | none => .ok (registry.objects.find? (hasId id))

end Registry

end CommandLine.Stock
