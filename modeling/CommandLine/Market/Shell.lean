import CommandLine.Command.Complete
import CommandLine.Command.Parse
import CommandLine.Market.Shops

/-! The shell of the market: what a line prints, and what the tabulator offers. -/

set_option autoImplicit false

namespace CommandLine.Market

def commands : List (String × Command Player) :=
  [("remove", remove), ("list", list), ("tp", teleport)]

namespace Shell

def find? (line : String) : Option (Command Player) :=
  match Line.tokens line with
  | [] => none
  | label :: _ =>
    (commands.find? fun entry => Text.sameIgnoringCase entry.1 label).map (·.2)

def describeValue (value : Value) : String :=
  match value with
  | .object id name _ =>
    let owner := (value.attribute? "owner").elim "" Value.shown
    name ++ " #" ++ id.shown ++ " owned by " ++ owner
  | .text content => content
  | .integer _ number => toString number
  | _ => "?"

def describe (context : Context) : String :=
  ", ".intercalate (context.entries.map fun (name, value) => name ++ " = " ++ describeValue value)

def run (input : Input Player) (line : String) : List String :=
  if Text.trim line.toList = "help".toList then
    commands.map fun (_, command) => "   " ++ command.usage
  else
    match find? line with
    | none => ["Error: unknown command, try \"help\""]
    | some command =>
      match (command.parseLine input line).result with
      | .ok context => ["<< " ++ describe context]
      | .error cause => ["Error: " ++ cause.message]

def addMissing (found more : List String) : List String :=
  more.foldl (fun found suggestion =>
    if suggestion ∈ found then found else found ++ [suggestion]) found

def complete (input : Input Player) (line : String) : List String :=
  let found := commands.foldl (fun found (_, command) =>
    addMissing found (command.completeLine input line).suggestions) []
  found.take input.maxSuggestions

/-- The size in bytes of everything up to the last separator. -/
def wordStart (line : List Char) : Nat :=
  let typed := (line.reverse.takeWhile (· ≠ Line.separator)).reverse
  (String.ofList (line.take (line.length - typed.length))).utf8ByteSize

/-- Completes the word before the byte `position`, and says where that word starts. -/
def tab? (input : Input Player) (line : String) (position : Nat) : Option (Nat × List String) :=
  (Text.takeBytes? position line.toList).map fun before =>
    (wordStart before, complete input (String.ofList before))

end Shell

end CommandLine.Market
