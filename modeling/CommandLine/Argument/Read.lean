import CommandLine.Argument.Info
import CommandLine.Reading.Group
import CommandLine.Reading.Identifier
import CommandLine.Reading.Token

/-! The first pass over an argument: reading its value from the cursor. -/

set_option autoImplicit false

namespace CommandLine.Argument

variable {σ : Type}

mutual

/-- A mapping and an identifier only view what they are made from: in either mode the value
that they make is the one to store. -/
def read (input : Input σ) (mode : Mode) : Argument σ → Reader
  | .literal _ word => Reading.literal word
  | .integer label kind => fun context cursor =>
    (Reading.integer label.shown kind context cursor).kept mode label.name
  | .text label joinsRest => fun context cursor =>
    (Reading.text label.shown joinsRest context cursor).kept mode label.name
  | .boolean label => fun context cursor =>
    (Reading.boolean label.shown context cursor).kept mode label.name
  | .recorder name accepted => fun context cursor =>
    (Reading.recorder name accepted context cursor).kept mode name
  | .fixed label value => fun context cursor =>
    (Reading.produced (.ok value) context cursor).kept mode label.name
  | .fromInvoker label kind project => fun context cursor =>
    (Reading.fromInvoker label.shown kind (project input.invoker) context cursor).kept mode
      label.name
  | .targeted label lookup => fun context cursor =>
    (Reading.produced (lookup input context) context cursor).kept mode label.name
  | .optional inner => fun context cursor =>
    (read input mode inner context cursor).orAbsent inner.name cursor
  | .named inner => fun context cursor =>
    Reading.wrapped
      (Attempt.stripped inner.display inner.info.lead Failure.error
        (fun adjusted => read input mode inner context adjusted) context cursor)
      inner.name
  | .mapped inner mapping => fun context cursor =>
    ((read input .viewing inner context cursor).mapped inner.name mapping).kept mode inner.name
  | .fallback primary _ => fun context cursor =>
    (read input mode primary context cursor).postponed primary.name
  | .sequence label parts compute _ =>
    Reading.sequence mode label.name compute (readers input .storing parts)
  | .firstOf label alternatives _ =>
    Reading.firstOf mode label.name (readers input mode alternatives)
  | .objectId rules inner => fun context cursor =>
    (Reading.identifier rules input (read input .viewing inner) context cursor).kept mode
      rules.label.name
  | .objectById rules id inner => fun context cursor =>
    (Reading.object rules id.source.render input
      (Reading.identifier id input (read input .viewing inner)) context cursor).kept mode
      rules.label.name

def readers (input : Input σ) (mode : Mode) : List (Argument σ) → List Reader
  | [] => []
  | argument :: rest => read input mode argument :: readers input mode rest

end

theorem readers_eq_map (input : Input σ) (mode : Mode) (arguments : List (Argument σ)) :
    readers input mode arguments = arguments.map (read input mode) := by
  induction arguments with
  | nil => rfl
  | cons argument rest ih => simp [readers, ih]

end CommandLine.Argument
