import CommandLine.Text.Quoted
import CommandLine.Text.Record
import CommandLine.Value

/-! What can be wrong with the words of a command, and with its definition. -/

set_option autoImplicit false

namespace CommandLine

/-- Arguments are named as the user sees them. -/
inductive ArgumentError where
  | missing (argument : String)
  | invalid (argument input : String) (reason : Option String)
  /-- The value was read, but a filter did not accept it. -/
  | rejected (argument input message : String) (value : Value)
  | requiresInvoker (argument invoker : String)
  | unexpected (input : String)

namespace ArgumentError

def message : ArgumentError → String
  | .missing argument => "missing argument: " ++ argument
  | .invalid argument input none => "invalid " ++ argument ++ ": " ++ Text.quoted input
  | .invalid argument input (some reason) =>
    "invalid " ++ argument ++ ": " ++ Text.quoted input ++ " (" ++ reason ++ ")"
  | .rejected _ _ message _ => message
  | .requiresInvoker argument invoker => argument ++ " can only be used by a " ++ invoker
  | .unexpected input => "unexpected argument: " ++ Text.quoted input

def argument? : ArgumentError → Option String
  | .missing argument => some argument
  | .invalid argument _ _ => some argument
  | .rejected argument _ _ _ => some argument
  | .requiresInvoker argument _ => some argument
  | .unexpected _ => none

def input? : ArgumentError → Option String
  | .missing _ => none
  | .invalid _ input _ => some input
  | .rejected _ input _ _ => some input
  | .requiresInvoker _ _ => none
  | .unexpected input => some input

def isCircumstantial : ArgumentError → Bool
  | .missing _ | .requiresInvoker _ _ => true
  | _ => false

def isRejection : ArgumentError → Bool
  | .rejected .. => true
  | _ => false

def inspect : ArgumentError → String
  | .missing argument => Text.record "MissingInput" [("argument", Text.quoted argument)] false
  | .invalid argument input reason =>
    Text.record "InvalidInput"
      [("argument", Text.quoted argument), ("input", Text.quoted input),
        ("reason", Text.optional (reason.map Text.quoted))] false
  | .rejected argument input message _ =>
    Text.record "FilterRejected"
      [("argument", Text.quoted argument), ("input", Text.quoted input),
        ("message", Text.quoted message), ("value", "RejectedValue(..)")] false
  | .requiresInvoker argument invoker =>
    Text.record "RequiresInvoker"
      [("argument", Text.quoted argument), ("invoker", Text.quoted invoker)] false
  | .unexpected input => Text.record "Unexpected" [("input", Text.quoted input)] false

end ArgumentError

inductive DefinitionError where
  | noArguments (owner : String)
  | fallbackInSequence (sequence argument : String)
  | producerIsFallback (argument producer : String)
  | duplicateName (name : String)

namespace DefinitionError

def message : DefinitionError → String
  | .noArguments owner => owner ++ " requires at least one child argument"
  | .fallbackInSequence sequence argument =>
    "sequence " ++ sequence ++ " cannot contain the fallback argument " ++ argument
  | .producerIsFallback argument producer =>
    "fallback of " ++ argument ++ " cannot be a fallback argument itself: " ++ producer
  | .duplicateName name => "duplicate argument name: " ++ name

end DefinitionError

end CommandLine
