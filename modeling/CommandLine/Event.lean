import CommandLine.Signal

/-! What happens while a command is read, as it is written to a log. -/

set_option autoImplicit false

namespace CommandLine

inductive Level where
  | debug
  | trace
  deriving DecidableEq

structure Entry where
  level : Level
  message : String
  fields : List (String × String)

inductive Event where
  | deferred (argument : String) (index : Nat) (signal : Signal)
  | resolved (argument : String) (index : Nat) (parsingFailed consumed success : Bool)
  | inputLeft (argument : String) (rootCause : ArgumentError)
  | completing (argument : String) (offer stop : Bool)
  | absent (argument : String) (cause : ArgumentError)
  | chainFailed (argument : String) (cause : ArgumentError)
  | producerFailed (argument : String) (cause : ArgumentError)
  | alternativeDeferred (argument : String) (index : Nat)
  | alternativeFailed (argument : String) (index : Nat) (cause : ArgumentError)
  | alternativeUnresolved (argument : String) (index : Nat) (cause : ArgumentError)
  | recorded (parsingFailed : Bool)

namespace Event

/-- The log entry of an event; what a recorder notes is not logged. -/
def logged : Event → Option Entry
  | .deferred argument index signal =>
    some ⟨.debug, "fallback registered",
      [("argument", argument), ("index", toString index), ("signal", signal.message)]⟩
  | .resolved argument index parsingFailed consumed success =>
    some ⟨.debug, "fallback resolved",
      [("argument", argument), ("index", toString index),
        ("parsing_failed", toString parsingFailed), ("consumed", toString consumed),
        ("success", toString success)]⟩
  | .inputLeft argument rootCause =>
    some ⟨.debug, "input left for the fallback, failing with its root cause",
      [("argument", argument), ("root_cause", rootCause.message)]⟩
  | .completing argument offer stop =>
    some ⟨.trace, "completion step",
      [("argument", argument), ("offer", toString offer), ("stop", toString stop)]⟩
  | .absent argument cause =>
    some ⟨.trace, "optional argument absent", [("argument", argument), ("error", cause.message)]⟩
  | .chainFailed argument cause =>
    some ⟨.trace, "chained fallback failed", [("argument", argument), ("error", cause.message)]⟩
  | .producerFailed argument cause =>
    some ⟨.trace, "fallback unavailable, parsing original again",
      [("argument", argument), ("error", cause.message)]⟩
  | .alternativeDeferred argument index =>
    some ⟨.trace, "alternative deferred", [("argument", argument), ("index", toString index)]⟩
  | .alternativeFailed argument index cause =>
    some ⟨.trace, "alternative failed",
      [("argument", argument), ("index", toString index), ("error", cause.message)]⟩
  | .alternativeUnresolved argument index cause =>
    some ⟨.trace, "alternative fallback failed",
      [("argument", argument), ("index", toString index), ("error", cause.message)]⟩
  | .recorded _ => none

def recording? : Event → Option Bool
  | .recorded parsingFailed => some parsingFailed
  | _ => none

end Event

end CommandLine
