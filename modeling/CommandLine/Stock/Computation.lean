import CommandLine.Error

/-! Ready-made values of a sequence, computed from what its parts stored. -/

set_option autoImplicit false

namespace CommandLine.Stock

inductive Computation where
  | everything
  | sum
  | get (name : String)
  | names
  | failing (cause : ArgumentError)

/-- Reduces to the widest kind, around which sums wrap. -/
def wrap (number : Int) : Int :=
  number.bmod (IntegerKind.values Value.widest.bits)

namespace Computation

def apply : Computation → Context → Except ArgumentError Value
  | .everything, context => .ok (.ofContext context)
  | .sum, context =>
    let numbers := context.entries.filterMap (·.2.number?)
    .ok (.integer Value.widest (numbers.foldl (fun total number => wrap (total + number)) 0))
  | .get name, context =>
    match context.get? name with
    | some value => .ok value
    | none => .error (.missing name)
  | .names, context =>
    .ok (.text (toString context.size ++ ":" ++ toString context.isEmpty ++ ":" ++
      Text.quotedSet context.names))
  | .failing cause, _ => .error cause

end Computation

end CommandLine.Stock
