import CommandLine.Argument.Read
import CommandLine.Resolution.Alternation
import CommandLine.Resolution.Fallback
import CommandLine.Resolution.Wrapper

/-! The second pass over an argument: deciding what it had put off. -/

set_option autoImplicit false

namespace CommandLine.Argument

variable {σ : Type}

mutual

def resolve (input : Input σ) : Argument σ → Resolver
  | .recorder name _ => Resolution.recorder name
  | .optional inner => Resolution.orAbsent (resolve input inner)
  | .named inner => Resolution.named inner.display inner.info.lead (resolve input inner)
  | .mapped inner mapping => Resolution.mapped inner.name mapping (resolve input inner)
  | .fallback primary producer =>
    Resolution.fallback primary.name
      (if primary.isFallback then some (resolve input primary) else none)
      (producer.read input .viewing) (primary.read input .storing)
  | .firstOf label alternatives _ => Resolution.firstOf label.name (resolvers input alternatives)
  | _ => Resolution.unanswered

def resolvers (input : Input σ) : List (Argument σ) → List Resolver
  | [] => []
  | argument :: rest => resolve input argument :: resolvers input rest

end

theorem resolvers_eq_map (input : Input σ) (arguments : List (Argument σ)) :
    resolvers input arguments = arguments.map (resolve input) := by
  induction arguments with
  | nil => rfl
  | cons argument rest ih => simp [resolvers, ih]

end CommandLine.Argument
