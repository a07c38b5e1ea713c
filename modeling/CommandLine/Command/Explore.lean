import CommandLine.Attempt

/-! Reading a list of arguments, some of which put off their decision.

Arguments are read in order. One that puts off its decision is passed over, the
rest is tried from where it stands, and then it is resolved: behind everything
if the rest went well, and back at its own place if not. A resolution that
consumes tokens starts the rest over from there.
-/

set_option autoImplicit false

namespace CommandLine

structure Step where
  name : String
  read : Reader
  resolve : Resolver

/-- A call that a run makes on one of its arguments, with what it was given and what came of it. -/
inductive Visit where
  | read (index : Nat) (name : String) (context : Context) (cursor : Cursor) (reading : Reading)
  | resolved (index : Nat) (name : String) (parsingFailed : Bool) (context : Context)
      (cursor : Cursor) (signal : Signal) (resolution : Resolution)

namespace Visit

/-- A failed resolution leaves the cursor where it was. -/
def consumes (cursor : Cursor) (resolution : Resolution) : Bool :=
  resolution.outcome.isOk && resolution.cursor.position != cursor.position

def leavesInput (cursor : Cursor) (resolution : Resolution) : Bool :=
  cursor.hasNext && !consumes cursor resolution

def events : Visit → List Event
  | .read index name _ _ reading =>
    match reading.outcome with
    | .error (.deferred signal) => reading.events ++ [.deferred name index signal]
    | _ => reading.events
  | .resolved index name parsingFailed _ cursor signal resolution =>
    resolution.events ++
      .resolved name index parsingFailed (consumes cursor resolution) resolution.outcome.isOk ::
      if leavesInput cursor resolution then [.inputLeft name signal.rootCause] else []

end Visit

inductive Ending where
  | reached
  | failed (cause : ArgumentError)
  /-- The last argument was resolved by consuming tokens, after which nothing else is resolved. -/
  | finished

namespace Ending

def isFailed : Ending → Bool
  | .failed _ => true
  | _ => false

def isFinished : Ending → Bool
  | .finished => true
  | _ => false

end Ending

structure Exploration where
  ending : Ending
  context : Context
  cursor : Cursor
  visits : List Visit

namespace Exploration

def after (exploration : Exploration) (earlier : List Visit) : Exploration :=
  { exploration with visits := earlier ++ exploration.visits }

def wentWrong (exploration : Exploration) : Bool :=
  exploration.ending.isFailed || exploration.cursor.hasNext

end Exploration

def explore : Nat → List Step → Context → Cursor → Exploration
  | _, [], context, cursor => ⟨.reached, context, cursor, []⟩
  | index, step :: rest, context, cursor =>
    let reading := step.read context cursor
    let visit := Visit.read index step.name context cursor reading
    match reading.outcome with
    | .ok _ => (explore (index + 1) rest reading.context reading.cursor).after [visit]
    | .error (.error cause) => ⟨.failed cause, reading.context, cursor, [visit]⟩
    | .error (.deferred signal) =>
      let skipping := explore (index + 1) rest reading.context cursor
      if skipping.ending.isFinished then skipping.after [visit]
      else
        let parsingFailed := skipping.wentWrong
        let start := if parsingFailed then cursor else skipping.cursor
        let resolution := step.resolve reading.context start signal parsingFailed
        let visits := visit :: skipping.visits ++
          [.resolved index step.name parsingFailed reading.context start signal resolution]
        if Visit.leavesInput start resolution then
          ⟨.failed signal.rootCause, resolution.context, start, visits⟩
        else
          match resolution.outcome with
          | .error cause => ⟨.failed cause, resolution.context, start, visits⟩
          | .ok _ =>
            if Visit.consumes start resolution then
              if rest.isEmpty then ⟨.finished, resolution.context, resolution.cursor, visits⟩
              else (explore (index + 1) rest resolution.context resolution.cursor).after visits
            else
              ⟨skipping.ending, resolution.context.merge skipping.context, skipping.cursor, visits⟩

end CommandLine
