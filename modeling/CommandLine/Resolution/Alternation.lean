import CommandLine.Reading.Group

/-! Resolving the alternatives that waited. -/

set_option autoImplicit false

namespace CommandLine.Resolution

/-- Resolves the listed branches in turn, each from the same cursor; a branch without an
alternative is passed over. -/
def firstFrom (name : String) (start : Cursor) (parsingFailed : Bool)
    (alternatives : List Resolver) : List (Nat × Signal) → Tally → Context → Resolution
  | [], tally, context =>
    ⟨(match tally.outcome name with
      | .ok value => .ok value
      | .error failure => .error failure.rootCause), context, start, []⟩
  | (index, signal) :: rest, tally, context =>
    match alternatives[index]? with
    | none => firstFrom name start parsingFailed alternatives rest tally context
    | some resolver =>
      let resolution := resolver context start signal parsingFailed
      match resolution.outcome with
      | .ok (some value) => { resolution with context := resolution.context.put name value }
      | .ok none =>
        (firstFrom name start parsingFailed alternatives rest tally.addAbsent
          resolution.context).after resolution.events
      | .error cause =>
        (firstFrom name start parsingFailed alternatives rest (tally.addError cause)
          resolution.context).after
          (resolution.events ++ [.alternativeUnresolved name index cause])

def firstOf (name : String) (alternatives : List Resolver) : Resolver :=
  fun context cursor signal parsingFailed =>
    match signal with
    | .branched _ index first others =>
      firstFrom name cursor parsingFailed alternatives ((index, first) :: others) .empty context
    | other => .fail other.rootCause context cursor

end CommandLine.Resolution
