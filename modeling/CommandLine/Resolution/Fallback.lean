import CommandLine.Attempt

/-! Resolving an argument that has a producer to fall back on.

The primary argument's own resolution comes first, if it has one and the signal
came from it. Then the producer is asked. Only when that fails for want of input
or of the right invoker does the primary argument count again: its first error
if what followed went wrong as well, and otherwise a second reading.
-/

set_option autoImplicit false

namespace CommandLine.Resolution

/-- The part of the policy that follows the primary argument's own resolution. -/
def produce (name : String) (producer again : Reader) : Resolver :=
  fun context start signal parsingFailed =>
    let produced := producer context start
    match produced.outcome with
    | .ok none => ⟨.ok none, produced.context, produced.cursor, produced.events⟩
    | .ok (some value) =>
      ⟨.ok (some value), produced.context.put name value, produced.cursor, produced.events⟩
    | .error failure =>
      let cause := failure.rootCause
      if !cause.isCircumstantial then
        ⟨.error cause, produced.context, produced.cursor, produced.events⟩
      else if parsingFailed then
        ⟨.error signal.rootCause, produced.context, produced.cursor, produced.events⟩
      else
        (again produced.context start).settled.after
          (produced.events ++ [.producerFailed name cause])

/-- `chained` is the primary argument's own resolution, if it has one. -/
def fallback (name : String) (chained : Option Resolver) (producer again : Reader) : Resolver :=
  fun context start signal parsingFailed =>
    match signal.inner?, chained with
    | none, _ => produce name producer again context start signal parsingFailed
    | some inner, none => produce name producer again context start inner parsingFailed
    | some inner, some resolver =>
      let resolution := resolver context start inner parsingFailed
      match resolution.outcome with
      | .ok _ => resolution
      | .error cause =>
        (produce name producer again resolution.context start inner parsingFailed).after
          (resolution.events ++ [.chainFailed name cause])

end CommandLine.Resolution
