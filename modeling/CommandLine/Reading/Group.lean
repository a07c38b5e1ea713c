import CommandLine.Reading.Wrapper

/-! Reading several arguments: one after another, or the first that fits. -/

set_option autoImplicit false

namespace CommandLine

structure Tally where
  deferred : List (Nat × Signal)
  absent : Bool
  rejected : Option ArgumentError
  failed : Option ArgumentError

namespace Tally

def empty : Tally :=
  ⟨[], false, none, none⟩

def addDeferred (tally : Tally) (index : Nat) (signal : Signal) : Tally :=
  { tally with deferred := tally.deferred ++ [(index, signal)] }

def addAbsent (tally : Tally) : Tally :=
  { tally with absent := true }

/-- Only the first rejection and the first other error are remembered. -/
def addError (tally : Tally) (cause : ArgumentError) : Tally :=
  if cause.isRejection then { tally with rejected := tally.rejected.or (some cause) }
  else { tally with failed := tally.failed.or (some cause) }

/-- Deferrals win over absence, absence over a rejection, and a rejection over any other error. -/
def outcome (tally : Tally) (name : String) : Except Failure (Option Value) :=
  match tally.deferred with
  | (index, first) :: others => .error (.deferred (.branched name index first others))
  | [] =>
    if tally.absent then .ok none
    else match tally.rejected.or tally.failed with
      | some cause => .error (.error cause)
      | none => .ok none

end Tally

namespace Reading

def inOrder : List Reader → Context → Cursor → Attempt ArgumentError Unit
  | [], context, cursor => .ok () context cursor
  | part :: rest, context, cursor =>
    let reading := part context cursor
    match reading.outcome with
    | .error failure => ⟨.error failure.rootCause, reading.context, reading.cursor, reading.events⟩
    | .ok _ => (inOrder rest reading.context reading.cursor).after reading.events

/-- The parts fill a copy of the context, from which the value of the sequence is computed; the
copy is merged back only once there is a value. -/
def sequence (mode : Mode) (name : String) (compute : Context → Except ArgumentError Value)
    (parts : List Reader) : Reader :=
  fun context cursor =>
    let done := inOrder parts context cursor
    match done.outcome with
    | .error cause => ⟨.error (.error cause), context, done.cursor, done.events⟩
    | .ok () =>
      match compute done.context with
      | .error cause => ⟨.error (.error cause), context, done.cursor, done.events⟩
      | .ok value =>
        let kept := match mode with
          | .storing => (context.merge done.context).put name value
          | .viewing => context
        ⟨.ok (some value), kept, done.cursor, done.events⟩

/-- Tries each alternative from the same cursor; the tally decides when none has a value. -/
def firstFrom (name : String) (start : Cursor) :
    Nat → Tally → List Reader → Context → Reading
  | _, tally, [], context => ⟨tally.outcome name, context, start, []⟩
  | index, tally, alternative :: rest, context =>
    let reading := alternative context start
    match reading.outcome with
    | .ok (some _) => reading
    | .ok none =>
      (firstFrom name start (index + 1) tally.addAbsent rest reading.context).after reading.events
    | .error (.deferred signal) =>
      (firstFrom name start (index + 1) (tally.addDeferred index signal) rest
        reading.context).after (reading.events ++ [.alternativeDeferred name index])
    | .error (.error cause) =>
      (firstFrom name start (index + 1) (tally.addError cause) rest reading.context).after
        (reading.events ++ [.alternativeFailed name index cause])

/-- A value is stored a second time, under the name of the alternation. -/
def firstOf (mode : Mode) (name : String) (alternatives : List Reader) : Reader :=
  fun context cursor => (firstFrom name cursor 0 .empty alternatives context).kept mode name

end Reading

end CommandLine
