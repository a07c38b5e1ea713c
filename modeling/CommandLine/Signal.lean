import CommandLine.Error

/-! The word that an argument sends when it puts off its decision.

A signal says who waits and why. Wrappers add a layer of their own, and an
alternation keeps one branch for each of its members that waits, so the first
concrete error is always found by going down.
-/

set_option autoImplicit false

namespace CommandLine

inductive Signal where
  | raised (argument : String) (error : ArgumentError)
  | wrapped (argument : String) (inner : Signal)
  | branched (argument : String) (index : Nat) (first : Signal) (others : List (Nat × Signal))

namespace Signal

def argument : Signal → String
  | .raised argument _ => argument
  | .wrapped argument _ => argument
  | .branched argument .. => argument

/-- The innermost error; among branches the first one leads to it. -/
def rootCause : Signal → ArgumentError
  | .raised _ error => error
  | .wrapped _ inner => inner.rootCause
  | .branched _ _ first _ => first.rootCause

def inner? : Signal → Option Signal
  | .wrapped _ inner => some inner
  | _ => none

def message (signal : Signal) : String :=
  "fallback pending for " ++ signal.argument ++ ": " ++ signal.rootCause.message

def inspectWith (argument cause : String) : String :=
  Text.record "FallbackSignal" [("argument", Text.quoted argument), ("cause", cause)] false

mutual

def inspect : Signal → String
  | .raised argument error => inspectWith argument ("Error(" ++ error.inspect ++ ")")
  | .wrapped argument inner => inspectWith argument ("Nested(" ++ inner.inspect ++ ")")
  | .branched argument index first others =>
    let opening := "(" ++ toString index ++ ", " ++ first.inspect ++ ")"
    let rest := "[" ++ ", ".intercalate (inspectBranches others) ++ "]"
    inspectWith argument (Text.record "Branches" [("first", opening), ("others", rest)] false)

def inspectBranches : List (Nat × Signal) → List String
  | [] => []
  | (index, signal) :: rest =>
    ("(" ++ toString index ++ ", " ++ signal.inspect ++ ")") :: inspectBranches rest

end

end Signal

/-- Why reading an argument gave no value: it is wrong, or it waits for the rest. -/
inductive Failure where
  | error (cause : ArgumentError)
  | deferred (signal : Signal)

namespace Failure

def rootCause : Failure → ArgumentError
  | .error cause => cause
  | .deferred signal => signal.rootCause

end Failure

end CommandLine
