import CommandLine.Completion.Basic

/-! What the wrappers of an argument add to its suggestions. -/

set_option autoImplicit false

namespace CommandLine.Completion

/-- While the lead itself is being typed it is a suggestion of its own; the inner suggestions
come with the whole lead before them. -/
def named (limit : Nat) (lead : String) (inner : Completer) : Completer :=
  fun context cursor =>
    match cursor.peek with
    | none => ⟨[], cursor, []⟩
    | some typed =>
      let typingLead := Text.startsWith lead typed
      let bare :=
        if typingLead && typed.utf8ByteSize < lead.utf8ByteSize && cursor.remainingCount == 1
        then [lead] else []
      match cursor.stripNext? (if typingLead then typed else lead) with
      | none => ⟨bare, cursor, []⟩
      | some adjusted =>
        let offered := inner context adjusted
        ⟨extend limit bare (offered.suggestions.map (lead ++ ·)),
          cursor.restore offered.cursor.position, offered.events⟩

def fallback (limit : Nat) (primary producer : Completer) : Completer :=
  fun context cursor =>
    let first := primary context cursor
    if limit ≤ first.suggestions.length then
      { first with suggestions := first.suggestions.take limit }
    else
      let second := producer context cursor
      ⟨extend limit first.suggestions second.suggestions, second.cursor,
        first.events ++ second.events⟩

end CommandLine.Completion
