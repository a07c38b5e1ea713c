import CommandLine.Attempt

/-! Resolving a deferral through the wrappers of an argument.

A wrapper takes its own layer off the signal. A signal that has no such layer
was not sent through it, and its root cause is the answer.
-/

set_option autoImplicit false

namespace CommandLine.Resolution

def unanswered : Resolver :=
  fun context cursor signal _ => .fail signal.rootCause context cursor

def unwrapped (resolver : Resolver) : Resolver :=
  fun context cursor signal parsingFailed =>
    match signal.inner? with
    | none => .fail signal.rootCause context cursor
    | some inner => resolver context cursor inner parsingFailed

/-- An inner resolution that fails is absence. -/
def orAbsent (inner : Resolver) : Resolver :=
  unwrapped fun context cursor signal parsingFailed =>
    let resolution := inner context cursor signal parsingFailed
    match resolution.outcome with
    | .ok _ => resolution
    | .error _ => { resolution with outcome := .ok none, cursor := cursor }

def named (display lead : String) (inner : Resolver) : Resolver :=
  unwrapped fun context cursor signal parsingFailed =>
    Attempt.stripped display lead id
      (fun adjusted => inner context adjusted signal parsingFailed) context cursor

def mapped (name : String) (mapping : Value → Except ArgumentError Value)
    (inner : Resolver) : Resolver :=
  unwrapped fun context cursor signal parsingFailed =>
    let resolution := inner context cursor signal parsingFailed
    match resolution.outcome with
    | .error _ => resolution
    | .ok none => resolution
    | .ok (some value) =>
      match mapping value with
      | .error cause => { resolution with outcome := .error cause }
      | .ok image =>
        { resolution with
          outcome := .ok (some image)
          context := resolution.context.put name image }

/-- Resolves by noting how it was asked to, and gives a value only if nothing has gone wrong. -/
def recorder (name : String) : Resolver :=
  fun context cursor signal parsingFailed =>
    if parsingFailed then ⟨.error signal.rootCause, context, cursor, [.recorded true]⟩
    else
      let value := Value.text "fallback"
      ⟨.ok (some value), context.put name value, cursor, [.recorded false]⟩

end CommandLine.Resolution
