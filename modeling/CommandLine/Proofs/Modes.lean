import CommandLine.Proofs.Backtracking

/-! Reading with and without storing.

The two modes come to the same decision at the same place, since an attempt that
does not count stores nothing that a later one could see. Where storing has a
value, that is what the context holds under the name of the tree, unless the
tree is a keyword.
-/

set_option autoImplicit false

namespace CommandLine

namespace Attempt

variable {ε α : Type}

/-- The attempts differ in nothing but the context that they leave. -/
structure Agrees (left right : Attempt ε α) : Prop where
  outcome : left.outcome = right.outcome
  cursor : left.cursor = right.cursor
  events : left.events = right.events

namespace Agrees

variable {left right : Attempt ε α}

theorem refl (attempt : Attempt ε α) : attempt.Agrees attempt :=
  ⟨rfl, rfl, rfl⟩

theorem exists_context (h : left.Agrees right) :
    ∃ context, right = { left with context := context } := by
  obtain ⟨outcome, cursor, events⟩ := h
  exact ⟨right.context, by rw [outcome, cursor, events]⟩

theorem after (h : left.Agrees right) (earlier : List Event) :
    (left.after earlier).Agrees (right.after earlier) :=
  ⟨h.outcome, h.cursor, congrArg (earlier ++ ·) h.events⟩

end Agrees

theorem agrees_stripped (display lead : String) (refuse : ArgumentError → ε)
    {run run' : Cursor → Attempt ε α} (same : ∀ adjusted, (run adjusted).Agrees (run' adjusted))
    (context : Context) (cursor : Cursor) :
    (stripped display lead refuse run context cursor).Agrees
      (stripped display lead refuse run' context cursor) := by
  unfold stripped
  cases cursor.peek with
  | none => exact .refl _
  | some token =>
    cases cursor.stripNext? lead with
    | none => exact .refl _
    | some adjusted =>
      obtain ⟨left, same⟩ := (same adjusted).exists_context
      dsimp only
      rw [same]
      cases (run adjusted).outcome <;> exact ⟨rfl, rfl, rfl⟩

end Attempt

namespace Reading

section

variable {left right : Reading}

theorem agrees_kept (h : left.Agrees right) (mode mode' : Mode) (name : String) :
    (left.kept mode name).Agrees (right.kept mode' name) := by
  have logged (reading : Reading) (mode : Mode) :
      (reading.kept mode name).events = reading.events := by
    unfold kept
    split <;> rfl
  constructor
  · rw [outcome_kept, outcome_kept, h.outcome]
  · rw [cursor_kept, cursor_kept, h.cursor]
  · rw [logged, logged, h.events]

theorem agrees_wrapped (h : left.Agrees right) (name : String) :
    (left.wrapped name).Agrees (right.wrapped name) := by
  obtain ⟨context, rfl⟩ := h.exists_context
  unfold wrapped
  dsimp only
  split <;> exact ⟨rfl, rfl, rfl⟩

theorem agrees_orAbsent (h : left.Agrees right) (name : String) (start : Cursor) :
    (left.orAbsent name start).Agrees (right.orAbsent name start) := by
  obtain ⟨context, rfl⟩ := h.exists_context
  unfold orAbsent
  dsimp only
  split <;> exact ⟨rfl, rfl, rfl⟩

theorem agrees_postponed (h : left.Agrees right) (name : String) :
    (left.postponed name).Agrees (right.postponed name) := by
  obtain ⟨context, rfl⟩ := h.exists_context
  unfold postponed
  dsimp only
  split <;> exact ⟨rfl, rfl, rfl⟩

end

theorem agrees_sequence (mode mode' : Mode) (name : String)
    (compute : Context → Except ArgumentError Value) (parts : List Reader) (context : Context)
    (cursor : Cursor) :
    (sequence mode name compute parts context cursor).Agrees
      (sequence mode' name compute parts context cursor) := by
  -- The parts of a sequence fill a copy of the context in either mode.
  unfold sequence
  dsimp only
  split
  · exact .refl _
  · split
    · exact .refl _
    · exact ⟨rfl, rfl, rfl⟩

/-- An alternative without a value has left the context as it was, so that the next one starts
from the same context in either mode. -/
theorem agrees_firstFrom {σ : Type} {input : Input σ} {alternatives : List (Argument σ)}
    {context : Context} {cursor : Cursor}
    (same : ∀ alternative ∈ alternatives,
      (alternative.read input .storing context cursor).Agrees
        (alternative.read input .viewing context cursor))
    (name : String) (index : Nat) (tally : Tally) :
    (firstFrom name cursor index tally (Argument.readers input .storing alternatives)
      context).Agrees
      (firstFrom name cursor index tally (Argument.readers input .viewing alternatives)
        context) := by
  induction alternatives generalizing index tally with
  | nil => exact .refl _
  | cons alternative rest ih =>
    obtain ⟨first, others⟩ := List.forall_mem_cons.mp same
    have law := Argument.backtracks_read input .storing alternative context cursor
    have outcome := first.outcome
    unfold Argument.readers firstFrom
    dsimp only
    rw [← first.outcome, ← first.events, Argument.context_read_viewing]
    cases came : (alternative.read input .storing context cursor).outcome with
    | ok value =>
      cases value with
      | some value => exact first
      | none =>
        rw [(law.absent came).1]
        exact (ih others _ _).after _
    | error failure =>
      rw [law.failed failure came]
      cases failure <;> exact (ih others _ _).after _

def Holds (keyword : Bool) (name : String) (context : Context) (reading : Reading) : Prop :=
  ∀ value, reading.outcome = .ok (some value) →
    if keyword then reading.context = context else reading.context.get? name = some value

section

variable {keyword : Bool} {name : String} {context : Context} {reading : Reading}

theorem holds_kept (reading : Reading) (name : String) (context : Context) :
    (reading.kept .storing name).Holds false name context := by
  intro value came
  rw [outcome_kept] at came
  simp only [kept, came]
  exact Table.get?_put_self ..

namespace Holds

theorem wrapped (h : reading.Holds keyword name context) (outer : String) :
    (reading.wrapped outer).Holds keyword name context := by
  unfold Reading.wrapped
  split
  · exact nofun
  · exact h

theorem orAbsent (h : reading.Holds keyword name context) (outer : String) (start : Cursor) :
    (reading.orAbsent outer start).Holds keyword name context := by
  unfold Reading.orAbsent
  split
  · exact h
  · exact nofun
  · exact nofun

theorem postponed (h : reading.Holds keyword name context) (outer : String) :
    (reading.postponed outer).Holds keyword name context := by
  unfold Reading.postponed
  split
  · exact h
  · exact nofun
  · exact nofun

end Holds

theorem holds_stripped (display lead : String) {run : Cursor → Reading}
    (ofRun : ∀ adjusted, (run adjusted).Holds keyword name context) (cursor : Cursor) :
    Holds keyword name context (.stripped display lead .error run context cursor) := by
  rcases Attempt.stripped_cases display lead .error run context cursor with
    ⟨-, cause, eq⟩ | ⟨adjusted, -, ⟨failure, came, eq⟩ | ⟨value, -, eq⟩⟩
  · rw [eq]
    exact nofun
  · rw [eq]
    simp [Holds, came]
  · rw [eq]
    exact ofRun adjusted

theorem holds_sequence (name : String) (compute : Context → Except ArgumentError Value)
    (parts : List Reader) (context : Context) (cursor : Cursor) :
    (sequence .storing name compute parts context cursor).Holds false name context := by
  unfold sequence
  dsimp only
  split
  · exact nofun
  · split
    · exact nofun
    · rintro value ⟨⟩
      exact Table.get?_put_self ..

theorem holds_literal (word name : String) (context : Context) (cursor : Cursor) :
    (literal word context cursor).Holds true name context :=
  fun _ _ => (backtracks_token word _ [] context cursor).context_eq

end

end Reading

namespace Argument

variable {σ : Type}

/-- A keyword, which may be optional, have a name in front of it or a producer to fall back on:
reading it stores nothing. -/
def isKeyword : Argument σ → Bool
  | .literal .. => true
  | .optional inner => inner.isKeyword
  | .named inner => inner.isKeyword
  | .fallback primary _ => primary.isKeyword
  | _ => false

theorem holds_read (input : Input σ) (argument : Argument σ) (context : Context)
    (cursor : Cursor) :
    (argument.read input .storing context cursor).Holds argument.isKeyword argument.name
      context := by
  induction argument generalizing context cursor with
  | literal name word => exact Reading.holds_literal word name context cursor
  | optional inner ih => exact (ih context cursor).orAbsent _ _
  | named inner ih => exact (Reading.holds_stripped _ _ (ih context) cursor).wrapped _
  | fallback primary _ ofPrimary _ => exact (ofPrimary context cursor).postponed _
  | sequence label parts compute => exact Reading.holds_sequence _ compute _ context cursor
  | _ =>
    rw [read]
    exact Reading.holds_kept _ _ context

theorem agrees_read (input : Input σ) (argument : Argument σ) (context : Context)
    (cursor : Cursor) :
    (argument.read input .storing context cursor).Agrees
      (argument.read input .viewing context cursor) := by
  -- Only what a mapping or an identifier is made from is read in one mode alone.
  induction argument generalizing context cursor with
  | literal => exact .refl _
  | optional inner ih => exact Reading.agrees_orAbsent (ih context cursor) _ _
  | named inner ih =>
    exact Reading.agrees_wrapped (Attempt.agrees_stripped _ _ _ (ih context) context cursor) _
  | fallback primary _ ofPrimary _ => exact Reading.agrees_postponed (ofPrimary context cursor) _
  | sequence label parts compute => exact Reading.agrees_sequence ..
  | firstOf label alternatives _ ofAlternatives =>
    rw [read, read]
    refine Reading.agrees_kept (Reading.agrees_firstFrom ?_ label.name 0 .empty) ..
    exact fun alternative member => ofAlternatives alternative member context cursor
  | _ =>
    rw [read, read]
    exact Reading.agrees_kept (.refl _) ..

/-- Reading comes to the same decision at the same place whether or not it stores, and what it
stores is the value that it comes to, under the name of the tree. A keyword alone leaves the
context as it was. -/
theorem read_modes_agree (input : Input σ) (argument : Argument σ) (context : Context)
    (cursor : Cursor) :
    let storing := argument.read input .storing context cursor
    let viewing := argument.read input .viewing context cursor
    storing.outcome = viewing.outcome ∧ storing.cursor = viewing.cursor ∧
      storing.events = viewing.events ∧ viewing.context = context ∧
      ∀ value, storing.outcome = .ok (some value) →
        if argument.isKeyword then storing.context = context
        else storing.context.get? argument.name = some value := by
  intro storing viewing
  have same := agrees_read input argument context cursor
  exact ⟨same.outcome, same.cursor, same.events, context_read_viewing ..,
    holds_read input argument context cursor⟩

end Argument

end CommandLine
