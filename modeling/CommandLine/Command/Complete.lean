import CommandLine.Argument.Complete
import CommandLine.Command.Basic

/-! Suggestions for the last token of a command. -/

set_option autoImplicit false

namespace CommandLine

variable {σ : Type}

namespace Argument

/-- Whether an argument ends the search, given how it read; `none` if the last token lies behind
what it took. Only a hidden argument may fail without ending it. -/
def stops? (argument : Argument σ) (start : Cursor) (reading : Reading) : Option Bool :=
  match reading.outcome with
  | .ok _ =>
    if !reading.cursor.hasNext then some true
    else if reading.cursor.remainingCount == start.remainingCount then some false
    else none
  | .error (.deferred _) => some false
  | .error (.error _) => some (!argument.reduced.isEmpty)

def suggestFrom (input : Input σ) :
    List (Argument σ) → Context → Cursor → List String → Completion
  | [], _, cursor, found => ⟨found, cursor, []⟩
  | argument :: rest, context, cursor, found =>
    if !cursor.hasNext then ⟨found, cursor, []⟩
    else
      let reading := argument.read input .storing context cursor
      match argument.stops? cursor reading with
      | none =>
        (suggestFrom input rest reading.context reading.cursor found).after reading.events
      | some stop =>
        let offered := argument.complete input reading.context cursor
        let found := Completion.extend input.maxSuggestions found offered.suggestions
        let events := reading.events ++ .completing argument.name true stop :: offered.events
        if input.maxSuggestions ≤ found.length || stop then ⟨found, cursor, events⟩
        else (suggestFrom input rest reading.context cursor found).after events

end Argument

namespace Command

def complete (command : Command σ) (input : Input σ) (cursor : Cursor) : Completion :=
  Argument.suggestFrom input command.arguments .empty cursor []

def completeLine (command : Command σ) (input : Input σ) (line : String) : Completion :=
  command.complete input (.ofPartialLine line)

end Command

end CommandLine
