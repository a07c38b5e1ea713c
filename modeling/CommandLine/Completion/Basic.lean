import CommandLine.Attempt
import CommandLine.Text.CaseFold

/-! Suggestions for the token that is being typed. -/

set_option autoImplicit false

namespace CommandLine

structure Completion where
  suggestions : List String
  cursor : Cursor
  events : List Event

abbrev Completer := Context → Cursor → Completion

namespace Completion

def after (completion : Completion) (earlier : List Event) : Completion :=
  { completion with events := earlier ++ completion.events }

def extend (limit : Nat) (found more : List String) : List String :=
  found ++ more.take (limit - found.length)

theorem length_extend_le {limit : Nat} {found : List String} (h : found.length ≤ limit)
    (more : List String) : (extend limit found more).length ≤ limit := by
  simp only [extend, List.length_append, List.length_take]
  omega

def nothing : Completer :=
  fun _ cursor => ⟨[], cursor, []⟩

def words (candidates : List String) : Completer :=
  fun _ cursor =>
    match cursor.finalToken with
    | none => ⟨[], cursor, []⟩
    | some typed => ⟨candidates.filter (Text.startsIgnoringCase · typed), cursor, []⟩

def always (word : String) : Completer :=
  fun _ cursor => ⟨[word], cursor, []⟩

end Completion

end CommandLine
