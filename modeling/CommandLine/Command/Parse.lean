import CommandLine.Argument.Resolve
import CommandLine.Command.Basic
import CommandLine.Command.Explore

/-! Reading a whole command. -/

set_option autoImplicit false

namespace CommandLine

namespace Argument

def step {σ : Type} (input : Input σ) (argument : Argument σ) : Step :=
  ⟨argument.name, argument.read input .storing, argument.resolve input⟩

end Argument

structure Run where
  result : Except ArgumentError Context
  cursor : Cursor
  visits : List Visit

namespace Run

def events (run : Run) : List Event :=
  run.visits.flatMap Visit.events

end Run

namespace Command

variable {σ : Type}

def firstWithoutValue? (command : Command σ) (context : Context) : Option (Argument σ) :=
  (command.arguments.reverse.takeWhile fun argument => !context.has argument.name).getLast?

/-- A token that is left over is held against an argument that might have taken it. -/
def leftover? (command : Command σ) (context : Context) (cursor : Cursor) :
    Option ArgumentError :=
  match cursor.peek with
  | none => none
  | some token =>
    match command.firstWithoutValue? context with
    | some argument => some (.invalid argument.display token none)
    | none => some (.unexpected token)

def parse (command : Command σ) (input : Input σ) (cursor : Cursor) : Run :=
  let exploration := explore 0 (command.arguments.map (·.step input)) .empty cursor
  let result :=
    match exploration.ending with
    | .failed cause => .error cause
    | _ =>
      match command.leftover? exploration.context exploration.cursor with
      | some cause => .error cause
      | none => .ok exploration.context
  ⟨result, exploration.cursor, exploration.visits⟩

def parseLine (command : Command σ) (input : Input σ) (line : String) : Run :=
  command.parse input (.ofLine line)

end Command

end CommandLine
