import CommandLine.Line
import CommandLine.Text.CaseFold

/-! A list of tokens and how far it has been read.

The tokens never change; only the position moves, and it stays within them.
-/

set_option autoImplicit false

namespace CommandLine

@[ext] structure Cursor where
  tokens : List String
  position : Nat
  position_le : position ≤ tokens.length
  deriving DecidableEq

namespace Cursor

def ofList (tokens : List String) : Cursor :=
  ⟨tokens, 0, Nat.zero_le _⟩

def ofLine (line : String) : Cursor :=
  ofList (Line.tokens line)

def ofPartialLine (line : String) : Cursor :=
  ofList (Line.partialTokens line)

def remaining (cursor : Cursor) : List String :=
  cursor.tokens.drop cursor.position

def remainingCount (cursor : Cursor) : Nat :=
  cursor.tokens.length - cursor.position

def hasNext (cursor : Cursor) : Bool :=
  cursor.position < cursor.tokens.length

def peek (cursor : Cursor) : Option String :=
  cursor.tokens[cursor.position]?

/-- The next token, if no other follows it: the one that is being completed. -/
def finalToken (cursor : Cursor) : Option String :=
  if cursor.remainingCount = 1 then cursor.peek else none

/-- Moves to `position`, or to the end if that lies behind it. -/
def restore (cursor : Cursor) (position : Nat) : Cursor :=
  { cursor with
    position := min position cursor.tokens.length
    position_le := Nat.min_le_right _ _ }

def next? (cursor : Cursor) : Option (String × Cursor) :=
  if h : cursor.position < cursor.tokens.length then
    some (cursor.tokens[cursor.position],
      { cursor with position := cursor.position + 1, position_le := h })
  else none

def toEnd (cursor : Cursor) : Cursor :=
  { cursor with position := cursor.tokens.length, position_le := Nat.le_refl _ }

/-- The tokens read since `position`, none if the cursor has not passed it. -/
def consumedSince (cursor : Cursor) (position : Nat) : List String :=
  let start := min position cursor.position
  (cursor.tokens.drop start).take (cursor.position - start)

def replaceNext? (cursor : Cursor) (token : String) : Option Cursor :=
  if cursor.position < cursor.tokens.length then
    some
      { cursor with
        tokens := cursor.tokens.set cursor.position token
        position_le := by simpa using cursor.position_le }
  else none

def stripNext? (cursor : Cursor) (lead : String) : Option Cursor :=
  match cursor.peek with
  | none => none
  | some token =>
    match Text.afterLead? lead token with
    | none => none
    | some rest => cursor.replaceNext? rest

theorem length_remaining (cursor : Cursor) : cursor.remaining.length = cursor.remainingCount := by
  simp [remaining, remainingCount]

theorem peek_eq_head?_remaining (cursor : Cursor) : cursor.peek = cursor.remaining.head? := by
  simp [peek, remaining, List.head?_drop]

theorem hasNext_iff (cursor : Cursor) : cursor.hasNext = true ↔ cursor.remaining ≠ [] := by
  simp [hasNext, remaining, List.drop_eq_nil_iff]

@[simp] theorem restore_position (cursor : Cursor) : cursor.restore cursor.position = cursor := by
  ext1
  · rfl
  · exact Nat.min_eq_left cursor.position_le

theorem next?_eq_none_iff (cursor : Cursor) : cursor.next? = none ↔ cursor.peek = none := by
  simp [next?, peek]

theorem remaining_of_next? {cursor after : Cursor} {token : String}
    (h : cursor.next? = some (token, after)) : cursor.remaining = token :: after.remaining := by
  unfold next? at h
  split at h
  next inside =>
    cases h
    simp [remaining]
  next => cases h

end Cursor

end CommandLine
