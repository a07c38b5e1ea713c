import CommandLine.Argument.Basic
import CommandLine.Completion.Basic

/-! Suggestions of identifiers.

An identifier may span several tokens; then only the part that belongs to the
last of them is offered.
-/

set_option autoImplicit false

namespace CommandLine.Completion

variable {σ : Type}

/-- What is offered of a rendered identifier when `count` tokens have been typed. -/
def lastPart (count : Nat) (rendered : String) : String :=
  if count ≤ 1 then rendered
  else match Line.afterSeparators (count - 1) rendered.toList with
    | none => rendered
    | some part => String.ofList part

def offer? (rules : IdRules σ) (input : Input σ) (context : Context) (count : Nat)
    (id : Value) : Option String :=
  if rules.filter.accepts input context id then
    let rendered := rules.source.render id
    if rendered.isEmpty then none else some (lastPart count rendered)
  else none

def gather (limit : Nat) (offer : Value → Option String) : List Value → List String → List String
  | [], found => found
  | id :: rest, found =>
    if limit ≤ found.length then found
    else match offer id with
      | none => gather limit offer rest found
      | some suggestion =>
        if suggestion ∈ found then gather limit offer rest found
        else gather limit offer rest (found ++ [suggestion])

def candidates (rules : IdRules σ) (input : Input σ) (context : Context) (typed : String) :
    List Value :=
  rules.source.pinned input context typed ++
    if rules.minimumTyped ≤ typed.length then rules.source.suggestions input context typed else []

/-- Nothing is suggested once the identifier is complete and other tokens follow it. -/
def identifier (rules : IdRules σ) (input : Input σ) (inner : Reader) : Completer :=
  fun context cursor =>
    if !cursor.hasNext then ⟨[], cursor, []⟩
    else
      let reading := inner context cursor
      if reading.outcome.isOk && reading.cursor.hasNext then ⟨[], reading.cursor, reading.events⟩
      else
        let typed := cursor.remaining
        let offer := offer? rules input context typed.length
        ⟨gather input.maxSuggestions offer (candidates rules input context (Line.joined typed)) [],
          reading.cursor, reading.events⟩

end CommandLine.Completion
