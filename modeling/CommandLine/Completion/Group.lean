import CommandLine.Completion.Basic

/-! Suggestions of several arguments.

The earlier parts of a sequence are read again to find the part that the last
token belongs to.
-/

set_option autoImplicit false

namespace CommandLine.Completion

structure Part where
  read : Reader
  complete : Completer

/-- A part that reads tokens and leaves some is behind the last token, and one that fails without
reading any is hidden. Any other part is asked; a part that needs no token lets the next one
answer as well. -/
def inOrder (limit : Nat) : List Part → Context → Cursor → List String → Completion
  | [], _, cursor, found => ⟨found, cursor, []⟩
  | part :: rest, context, cursor, found =>
    if !cursor.hasNext then ⟨found, cursor, []⟩
    else
      let reading := part.read context cursor
      let parsed := reading.outcome.isOk
      let consumed := reading.cursor.remainingCount != cursor.remainingCount
      if parsed && consumed && reading.cursor.hasNext then
        (inOrder limit rest reading.context reading.cursor found).after reading.events
      else if !parsed && !consumed then
        (inOrder limit rest reading.context cursor found).after reading.events
      else
        let offered := part.complete reading.context cursor
        let found := extend limit found offered.suggestions
        let events := reading.events ++ offered.events
        if limit ≤ found.length then ⟨found, cursor, events⟩
        else if parsed && !consumed then
          (inOrder limit rest reading.context cursor found).after events
        else ⟨found, cursor, events⟩

def sequence (limit : Nat) (parts : List Part) : Completer :=
  fun context cursor => inOrder limit parts context cursor []

/-- Every alternative starts at the same cursor, and the last one asked decides where it ends. -/
def firstFrom (limit : Nat) (context : Context) (start : Cursor) :
    List Completer → Cursor → List String → Completion
  | [], cursor, found => ⟨found, cursor, []⟩
  | alternative :: rest, _, found =>
    let offered := alternative context start
    let found := extend limit found offered.suggestions
    if limit ≤ found.length then ⟨found, offered.cursor, offered.events⟩
    else (firstFrom limit context start rest offered.cursor found).after offered.events

def firstOf (limit : Nat) (alternatives : List Completer) : Completer :=
  fun context cursor => firstFrom limit context cursor alternatives cursor []

end CommandLine.Completion
