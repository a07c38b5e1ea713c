import CommandLine.Proofs.Backtracking

/-! Cursors with the same tokens in front of them.

What lies behind such cursors may differ, and so may how much it is. They have
the same next token, stay level as they move on, and copies of them that lose a
lead from the next token are level again.
-/

set_option autoImplicit false

namespace CommandLine

namespace Cursor

def Level (left right : Cursor) : Prop :=
  left.remaining = right.remaining

theorem remaining_restore (cursor : Cursor) (position : Nat) :
    (cursor.restore position).remaining = cursor.tokens.drop position := by
  show cursor.tokens.drop (min position cursor.tokens.length) = cursor.tokens.drop position
  by_cases inside : position ≤ cursor.tokens.length
  · rw [Nat.min_eq_left inside]
  · rw [Nat.min_eq_right (Nat.le_of_not_le inside), List.drop_length,
      List.drop_eq_nil_of_le (Nat.le_of_not_le inside)]

theorem Reaches.consumedSince {start finish : Cursor} (h : start.Reaches finish) :
    finish.consumedSince start.position =
      start.remaining.take (finish.position - start.position) := by
  unfold Cursor.consumedSince Cursor.remaining
  rw [Nat.min_eq_left h.forward, h.tokens]

theorem exists_of_stripNext? {cursor adjusted : Cursor} {lead : String}
    (strip : cursor.stripNext? lead = some adjusted) :
    ∃ token rest others, cursor.remaining = token :: others ∧
      Text.afterLead? lead token = some rest ∧ adjusted.remaining = rest :: others := by
  unfold stripNext? at strip
  split at strip
  next => cases strip
  next token next =>
    split at strip
    next => cases strip
    next rest after =>
      unfold replaceNext? at strip
      split at strip
      next inside =>
        cases strip
        rw [peek, List.getElem?_eq_getElem inside] at next
        refine ⟨token, rest, cursor.tokens.drop (cursor.position + 1), ?_, after, ?_⟩
        · rw [remaining, List.drop_eq_getElem_cons inside, Option.some.inj next]
        · have within : cursor.position < (cursor.tokens.set cursor.position rest).length := by
            rwa [List.length_set]
          show (cursor.tokens.set cursor.position rest).drop cursor.position = _
          rw [List.drop_eq_getElem_cons within, List.getElem_set_self,
            List.drop_set_of_lt (Nat.lt_succ_self _)]
      next => cases strip

theorem stripNext?_eq_none_iff (cursor : Cursor) (lead : String) :
    cursor.stripNext? lead = none ↔
      ∀ token, cursor.peek = some token → Text.afterLead? lead token = none := by
  unfold stripNext?
  cases next : cursor.peek with
  | none => simp
  | some token =>
    have inside : cursor.position < cursor.tokens.length := (List.getElem?_eq_some_iff.mp next).1
    cases after : Text.afterLead? lead token <;> simp [replaceNext?, inside, after]

namespace Level

variable {left right left' right' : Cursor}

theorem refl (cursor : Cursor) : cursor.Level cursor :=
  rfl

theorem remainingCount (same : left.Level right) : left.remainingCount = right.remainingCount := by
  rw [← length_remaining, same, length_remaining]

theorem peek (same : left.Level right) : left.peek = right.peek := by
  rw [peek_eq_head?_remaining, same, peek_eq_head?_remaining]

theorem hasNext (same : left.Level right) : left.hasNext = right.hasNext := by
  rw [Bool.eq_iff_iff, hasNext_iff, same, hasNext_iff]

theorem finalToken (same : left.Level right) : left.finalToken = right.finalToken := by
  rw [Cursor.finalToken, same.remainingCount, same.peek, Cursor.finalToken]

theorem toEnd (left right : Cursor) : left.toEnd.Level right.toEnd := by
  simp [Level, remaining, Cursor.toEnd]

theorem next?_cases (same : left.Level right) :
    (left.next? = none ∧ right.next? = none) ∨
      ∃ token after after', left.next? = some (token, after) ∧ right.next? = some (token, after') ∧
        after.Level after' := by
  cases l : left.next? with
  | none =>
    have nothing := (next?_eq_none_iff right).mpr (same.peek ▸ (next?_eq_none_iff left).mp l)
    exact .inl ⟨rfl, nothing⟩
  | some first =>
    cases r : right.next? with
    | none =>
      have nothing := (next?_eq_none_iff left).mpr (same.peek ▸ (next?_eq_none_iff right).mp r)
      cases l.symm.trans nothing
    | some second =>
      obtain ⟨token, after⟩ := first
      obtain ⟨token', after'⟩ := second
      obtain ⟨rfl, level⟩ := List.cons.inj
        ((remaining_of_next? l).symm.trans (same.trans (remaining_of_next? r)))
      exact .inr ⟨token, after, after', rfl, rfl, level⟩

theorem stripNext?_cases (same : left.Level right) (lead : String) :
    (left.stripNext? lead = none ∧ right.stripNext? lead = none) ∨
      ∃ adjusted adjusted', left.stripNext? lead = some adjusted ∧
        right.stripNext? lead = some adjusted' ∧ adjusted.Level adjusted' := by
  cases l : left.stripNext? lead with
  | none =>
    rw [stripNext?_eq_none_iff, same.peek, ← stripNext?_eq_none_iff] at l
    exact .inl ⟨rfl, l⟩
  | some adjusted =>
    obtain ⟨token, rest, others, ahead, after, remaining⟩ := exists_of_stripNext? l
    cases r : right.stripNext? lead with
    | none =>
      have next : right.peek = some token := by
        rw [← same.peek, peek_eq_head?_remaining, ahead, List.head?_cons]
      cases after.symm.trans ((stripNext?_eq_none_iff right lead).mp r token next)
    | some adjusted' =>
      obtain ⟨token', rest', others', ahead', after', remaining'⟩ := exists_of_stripNext? r
      obtain ⟨rfl, rfl⟩ := List.cons.inj (ahead.symm.trans (same.trans ahead'))
      cases after.symm.trans after'
      exact .inr ⟨adjusted, adjusted', rfl, rfl, remaining.trans remaining'.symm⟩

theorem advance (same : left.Level right) (ofLeft : left.Reaches left')
    (ofRight : right.Reaches right') (after : left'.Level right') :
    left'.position - left.position = right'.position - right.position := by
  have start := same.remainingCount
  have finish := after.remainingCount
  have forward := ofLeft.forward
  have forward' := ofRight.forward
  have within := ofLeft.within
  have within' := ofRight.within
  simp only [Cursor.remainingCount, ofLeft.tokens, ofRight.tokens] at start finish
  omega

theorem consumedSince (same : left.Level right) (ofLeft : left.Reaches left')
    (ofRight : right.Reaches right') (after : left'.Level right') :
    left'.consumedSince left.position = right'.consumedSince right.position := by
  rw [ofLeft.consumedSince, ofRight.consumedSince, same.advance ofLeft ofRight after, same]

theorem restore {lead : String} {adjusted adjusted' : Cursor} (same : left.Level right)
    (strip : left.stripNext? lead = some adjusted)
    (strip' : right.stripNext? lead = some adjusted') (copies : adjusted.Level adjusted')
    (ofLeft : adjusted.Reaches left') (ofRight : adjusted'.Reaches right')
    (after : left'.Level right') :
    (left.restore left'.position).Level (right.restore right'.position) := by
  obtain ⟨position, -⟩ := position_of_stripNext? strip
  obtain ⟨position', -⟩ := position_of_stripNext? strip'
  have advance := copies.advance ofLeft ofRight after
  have forward := ofLeft.forward
  have forward' := ofRight.forward
  -- A copy starts where its cursor stands, so what it has read is what the cursor skips.
  have split : left'.position = left.position + (left'.position - adjusted.position) := by omega
  have split' : right'.position = right.position + (left'.position - adjusted.position) := by omega
  rw [Level, remaining_restore, remaining_restore, split, split', ← List.drop_drop,
    ← List.drop_drop]
  exact congrArg _ same

end Level

end Cursor

end CommandLine
