import CommandLine.Argument.Read
import CommandLine.Completion.Group
import CommandLine.Completion.Identifier
import CommandLine.Completion.Wrapper

/-! What an argument suggests for the last token. -/

set_option autoImplicit false

namespace CommandLine.Argument

variable {σ : Type}

mutual

def complete (input : Input σ) : Argument σ → Completer
  | .literal _ word => Completion.words [word]
  | .boolean _ => Completion.words ["true", "false"]
  | .recorder _ accepted => Completion.always accepted
  | .optional inner => complete input inner
  | .named inner =>
    Completion.named input.maxSuggestions inner.info.lead (complete input inner)
  | .mapped inner _ => complete input inner
  | .fallback primary producer =>
    Completion.fallback input.maxSuggestions (complete input primary) (complete input producer)
  | .sequence _ parts _ _ => Completion.sequence input.maxSuggestions (completionParts input parts)
  | .firstOf _ alternatives _ =>
    Completion.firstOf input.maxSuggestions (completers input alternatives)
  | .objectId rules inner => Completion.identifier rules input (inner.read input .viewing)
  | .objectById _ id inner => Completion.identifier id input (inner.read input .viewing)
  | _ => Completion.nothing

def completers (input : Input σ) : List (Argument σ) → List Completer
  | [] => []
  | argument :: rest => complete input argument :: completers input rest

def completionParts (input : Input σ) : List (Argument σ) → List Completion.Part
  | [] => []
  | argument :: rest =>
    ⟨argument.read input .storing, complete input argument⟩ :: completionParts input rest

end

theorem completers_eq_map (input : Input σ) (arguments : List (Argument σ)) :
    completers input arguments = arguments.map (complete input) := by
  induction arguments with
  | nil => rfl
  | cons argument rest ih => simp [completers, ih]

theorem completionParts_eq_map (input : Input σ) (arguments : List (Argument σ)) :
    completionParts input arguments =
      arguments.map fun argument => ⟨argument.read input .storing, complete input argument⟩ := by
  induction arguments with
  | nil => rfl
  | cons argument rest ih => simp [completionParts, ih]

end CommandLine.Argument
