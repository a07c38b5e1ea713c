import CommandLine.Cursor
import CommandLine.Event

/-! One try at an argument: its outcome, and what it leaves behind. -/

set_option autoImplicit false

namespace CommandLine

structure Attempt (ε α : Type) where
  outcome : Except ε α
  context : Context
  cursor : Cursor
  events : List Event

/-- An outcome without a value means that the argument is absent, which is no error. -/
abbrev Reading := Attempt Failure (Option Value)

/-- Nothing can be put off any further, so every failure is an error. -/
abbrev Resolution := Attempt ArgumentError (Option Value)

abbrev Reader := Context → Cursor → Reading

/-- Takes the signal that was sent, and whether what came after the argument went wrong. -/
abbrev Resolver := Context → Cursor → Signal → Bool → Resolution

inductive Mode where
  | storing
  | viewing
  deriving DecidableEq

namespace Attempt

variable {ε ε' α : Type}

def ok (value : α) (context : Context) (cursor : Cursor) : Attempt ε α :=
  ⟨.ok value, context, cursor, []⟩

def fail (cause : ε) (context : Context) (cursor : Cursor) : Attempt ε α :=
  ⟨.error cause, context, cursor, []⟩

def after (attempt : Attempt ε α) (earlier : List Event) : Attempt ε α :=
  { attempt with events := earlier ++ attempt.events }

def mapError (attempt : Attempt ε α) (f : ε → ε') : Attempt ε' α :=
  { attempt with
    outcome := match attempt.outcome with
      | .ok value => .ok value
      | .error cause => .error (f cause) }

/-- Runs `run` on a copy of the cursor whose next token has lost `lead`, and takes over how far
the copy got; a failure leaves the cursor where it was. -/
def stripped (display lead : String) (refuse : ArgumentError → ε)
    (run : Cursor → Attempt ε α) (context : Context) (cursor : Cursor) : Attempt ε α :=
  match cursor.peek with
  | none => fail (refuse (.missing display)) context cursor
  | some token =>
    match cursor.stripNext? lead with
    | none => fail (refuse (.invalid display token none)) context cursor
    | some adjusted =>
      let attempt := run adjusted
      match attempt.outcome with
      | .error _ => { attempt with cursor := cursor }
      | .ok _ => { attempt with cursor := cursor.restore attempt.cursor.position }

@[simp] theorem outcome_after (attempt : Attempt ε α) (earlier : List Event) :
    (attempt.after earlier).outcome = attempt.outcome := rfl

@[simp] theorem context_after (attempt : Attempt ε α) (earlier : List Event) :
    (attempt.after earlier).context = attempt.context := rfl

@[simp] theorem cursor_after (attempt : Attempt ε α) (earlier : List Event) :
    (attempt.after earlier).cursor = attempt.cursor := rfl

@[simp] theorem events_after (attempt : Attempt ε α) (earlier : List Event) :
    (attempt.after earlier).events = earlier ++ attempt.events := rfl

end Attempt

/-- A reading with nobody left to wait for: a deferral counts as the error behind it. -/
def Reading.settled (reading : Reading) : Resolution :=
  reading.mapError Failure.rootCause

end CommandLine
