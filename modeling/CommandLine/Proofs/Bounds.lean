import CommandLine.Cursor

/-! A position is never past the tokens.

A cursor carries the proof that it stays within its tokens. Here it moves without
that proof, and what subtracts or slices may go wrong: nothing does, since each
move comes to the same with the proof and without it. What cursors say about
their tokens then holds wherever they have been, and also of a copy that was
moved on while the cursor itself stood still.
-/

set_option autoImplicit false

namespace CommandLine.Cursor

/-- One way to change where a cursor stands or what it stands on. The snapshot may be any
cursor's. -/
inductive Move where
  | next
  | restore (snapshot : Nat)
  | replace (token : String)

def move (cursor : Cursor) : Move → Cursor
  | .next => (cursor.next?.map (·.2)).getD cursor
  | .restore snapshot => cursor.restore snapshot
  | .replace token => (cursor.replaceNext? token).getD cursor

def moveAll (cursor : Cursor) (moves : List Move) : Cursor :=
  moves.foldl move cursor

/-- Tokens, and a position that nothing holds within them. -/
structure Loose where
  tokens : List String
  position : Nat

def loose (cursor : Cursor) : Loose :=
  ⟨cursor.tokens, cursor.position⟩

namespace Loose

def move (cursor : Loose) : Move → Loose
  | .next =>
    if cursor.position < cursor.tokens.length then
      { cursor with position := cursor.position + 1 }
    else cursor
  | .restore snapshot => { cursor with position := min snapshot cursor.tokens.length }
  | .replace token =>
    if cursor.position < cursor.tokens.length then
      { cursor with tokens := cursor.tokens.set cursor.position token }
    else cursor

def moveAll (cursor : Loose) (moves : List Move) : Loose :=
  moves.foldl move cursor

def slice? (tokens : List String) (start stop : Nat) : Option (List String) :=
  if start ≤ stop ∧ stop ≤ tokens.length then some ((tokens.drop start).take (stop - start))
  else none

def remainingCount? (cursor : Loose) : Option Nat :=
  if cursor.position ≤ cursor.tokens.length then some (cursor.tokens.length - cursor.position)
  else none

def remaining? (cursor : Loose) : Option (List String) :=
  slice? cursor.tokens cursor.position cursor.tokens.length

def consumedSince? (cursor : Loose) (snapshot : Nat) : Option (List String) :=
  slice? cursor.tokens (min snapshot cursor.position) cursor.position

end Loose

section

variable (cursor : Cursor)

theorem remainingCount?_loose : cursor.loose.remainingCount? = some cursor.remainingCount :=
  if_pos cursor.position_le

theorem remaining?_loose : cursor.loose.remaining? = some cursor.remaining := by
  have all : (cursor.tokens.drop cursor.position).length ≤
      cursor.tokens.length - cursor.position := by simp
  refine (if_pos ⟨cursor.position_le, Nat.le_refl _⟩).trans ?_
  exact congrArg some (List.take_of_length_le all)

theorem consumedSince?_loose (snapshot : Nat) :
    cursor.loose.consumedSince? snapshot = some (cursor.consumedSince snapshot) :=
  if_pos ⟨Nat.min_le_right _ _, cursor.position_le⟩

theorem loose_move (move : Move) : (cursor.move move).loose = cursor.loose.move move := by
  cases move with
  | next =>
    by_cases inside : cursor.position < cursor.tokens.length <;>
      simp [Cursor.move, Loose.move, next?, loose, inside]
  | restore snapshot => rfl
  | replace token =>
    by_cases inside : cursor.position < cursor.tokens.length <;>
      simp [Cursor.move, Loose.move, replaceNext?, loose, inside]

theorem loose_moveAll (moves : List Move) :
    (cursor.moveAll moves).loose = cursor.loose.moveAll moves := by
  induction moves generalizing cursor with
  | nil => rfl
  | cons move rest ih =>
    simp only [moveAll, Loose.moveAll, List.foldl_cons] at ih ⊢
    rw [ih, loose_move]

theorem length_tokens_move (move : Move) :
    (cursor.move move).tokens.length = cursor.tokens.length := by
  cases move with
  | next => by_cases inside : cursor.position < cursor.tokens.length <;>
      simp [Cursor.move, next?, inside]
  | restore snapshot => rfl
  | replace token => by_cases inside : cursor.position < cursor.tokens.length <;>
      simp [Cursor.move, replaceNext?, inside]

theorem length_tokens_moveAll (moves : List Move) :
    (cursor.moveAll moves).tokens.length = cursor.tokens.length := by
  induction moves generalizing cursor with
  | nil => rfl
  | cons move rest ih =>
    exact (ih (cursor.move move)).trans (length_tokens_move cursor move)

theorem consumedSince_append_remaining (snapshot : Nat) :
    cursor.consumedSince snapshot ++ cursor.remaining =
      cursor.tokens.drop (min snapshot cursor.position) := by
  have split := List.take_append_drop (cursor.position - min snapshot cursor.position)
    (cursor.tokens.drop (min snapshot cursor.position))
  rw [List.drop_drop, Nat.add_sub_cancel' (Nat.min_le_right _ _)] at split
  exact split

end

structure Copies (copy cursor : Cursor) (token : String) : Prop where
  length : copy.tokens.length = cursor.tokens.length
  position : copy.position = cursor.position
  peek : copy.peek = some token
  others : ∀ index, index ≠ cursor.position → copy.tokens[index]? = cursor.tokens[index]?

theorem copies_of_replaceNext? {cursor copy : Cursor} {token : String}
    (replaced : cursor.replaceNext? token = some copy) : copy.Copies cursor token := by
  unfold replaceNext? at replaced
  split at replaced
  next inside =>
    cases replaced
    exact {
      length := List.length_set
      position := rfl
      peek := List.getElem?_set_self inside
      others := fun index apart => List.getElem?_set_ne apart.symm
    }
  next => cases replaced

theorem position_restore_moveAll {cursor copy : Cursor}
    (same : copy.tokens.length = cursor.tokens.length) (moves : List Move) :
    (cursor.restore (copy.moveAll moves).position).position = (copy.moveAll moves).position := by
  refine Nat.min_eq_left ?_
  rw [← same, ← length_tokens_moveAll copy moves]
  exact (copy.moveAll moves).position_le

/-- Without anything that holds it there, a cursor that started before its tokens stays within
them, whatever it is moved by. So nothing it subtracts or slices goes wrong, what it has passed
and what is left make up its tokens, and a copy with another next token leads it along. -/
theorem moves_stay_within (tokens : List String) (moves : List Move) :
    let cursor := (ofList tokens).moveAll moves
    let loose := (Loose.mk tokens 0).moveAll moves
    (loose = cursor.loose ∧ loose.position ≤ loose.tokens.length ∧
        loose.tokens.length = tokens.length) ∧
      (loose.remainingCount? = some cursor.remainingCount ∧
        loose.remaining? = some cursor.remaining ∧
        ∀ snapshot, loose.consumedSince? snapshot = some (cursor.consumedSince snapshot)) ∧
      cursor.tokens.take cursor.position ++ cursor.remaining = cursor.tokens ∧
      (∀ snapshot, cursor.consumedSince snapshot ++ cursor.remaining =
        cursor.tokens.drop (min snapshot cursor.position)) ∧
      ∀ token copy, cursor.replaceNext? token = some copy →
        copy.Copies cursor token ∧ ∀ onward,
          (cursor.restore (copy.moveAll onward).position).position =
            (copy.moveAll onward).position := by
  intro cursor loose
  have same : loose = cursor.loose := (loose_moveAll (ofList tokens) moves).symm
  refine ⟨⟨same, ?_, ?_⟩, ?_, List.take_append_drop _ _,
    cursor.consumedSince_append_remaining, ?_⟩
  · rw [same]
    exact cursor.position_le
  · rw [same]
    exact length_tokens_moveAll (ofList tokens) moves
  · rw [same]
    exact ⟨cursor.remainingCount?_loose, cursor.remaining?_loose, cursor.consumedSince?_loose⟩
  · intro token copy replaced
    have copies := copies_of_replaceNext? replaced
    exact ⟨copies, position_restore_moveAll copies.length⟩

/-- A snapshot from behind the end leads to the end, and one from before it back. There the value
of a named argument is read from a copy without the name, and the cursor follows. -/
theorem moves_stay_within_named :
    let cursor := (ofList ["give", "count=5", "now"]).moveAll [.next, .restore 9, .restore 1]
    ∃ copy, cursor.replaceNext? "5" = some copy ∧ copy.Copies cursor "5" ∧
      copy.tokens = ["give", "5", "now"] ∧ (copy.moveAll [.next]).position = 2 ∧
      (cursor.restore (copy.moveAll [.next]).position).position =
        (copy.moveAll [.next]).position := by
  intro cursor
  obtain ⟨-, -, -, -, replaced⟩ :=
    moves_stay_within ["give", "count=5", "now"] [.next, .restore 9, .restore 1]
  obtain ⟨copies, follows⟩ := replaced "5" _ rfl
  exact ⟨_, rfl, copies, rfl, rfl, follows [.next]⟩

end CommandLine.Cursor
