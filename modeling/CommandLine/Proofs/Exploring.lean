import CommandLine.Command.Explore

/-! The ways in which reading a list of arguments can go.

Each rule tells what the first argument did and what part the reading of the
others had in it. A law of reading is proved by induction on the rules, most of
which only ask that the law passes from the others to the whole.
-/

set_option autoImplicit false

namespace CommandLine

/-- Where an argument that stands at `cursor` is resolved, after the others were read as `skipping`
tells. -/
def Exploration.start (skipping : Exploration) (cursor : Cursor) : Cursor :=
  if skipping.wentWrong then cursor else skipping.cursor

namespace Step

def visit (step : Step) (index : Nat) (context : Context) (cursor : Cursor) : Visit :=
  .read index step.name context cursor (step.read context cursor)

section

variable (step : Step) (context : Context) (cursor : Cursor) (signal : Signal)
  (skipping : Exploration)

def answer : Resolution :=
  step.resolve (step.read context cursor).context (skipping.start cursor) signal
    skipping.wentWrong

/-- What counts of that: an answer that ignores the tokens in front of it is none. -/
def verdict : Except ArgumentError (Option Value) :=
  if Visit.leavesInput (skipping.start cursor) (step.answer context cursor signal skipping) then
    .error signal.rootCause
  else (step.answer context cursor signal skipping).outcome

def consumes : Bool :=
  Visit.consumes (skipping.start cursor) (step.answer context cursor signal skipping)

def answered (index : Nat) : Visit :=
  .resolved index step.name skipping.wentWrong (step.read context cursor).context
    (skipping.start cursor) signal (step.answer context cursor signal skipping)

def visits (index : Nat) : List Visit :=
  step.visit index context cursor ::
    (skipping.visits ++ [step.answered context cursor signal skipping index])

variable {step context cursor signal skipping} in
theorem outcome_of_verdict {value : Option Value}
    (came : step.verdict context cursor signal skipping = .ok value) :
    (step.answer context cursor signal skipping).outcome = .ok value := by
  unfold verdict at came
  split at came
  · cases came
  · exact came

end

end Step

structure Passed (step : Step) (context : Context) (cursor : Cursor) (signal : Signal)
    (skipping : Exploration) : Prop where
  sent : (step.read context cursor).outcome = .error (.deferred signal)
  unfinished : skipping.ending.isFinished = false

inductive Explores : Nat → List Step → Context → Cursor → Exploration → Prop where
  | reached (index : Nat) (context : Context) (cursor : Cursor) :
    Explores index [] context cursor ⟨.reached, context, cursor, []⟩
  | read {index : Nat} {step : Step} {rest : List Step} {context : Context} {cursor : Cursor}
      {value : Option Value} {onward : Exploration}
      (came : (step.read context cursor).outcome = .ok value)
      (others : Explores (index + 1) rest (step.read context cursor).context
        (step.read context cursor).cursor onward) :
    Explores index (step :: rest) context cursor (onward.after [step.visit index context cursor])
  | failed {index : Nat} {step : Step} {rest : List Step} {context : Context} {cursor : Cursor}
      {cause : ArgumentError} (came : (step.read context cursor).outcome = .error (.error cause)) :
    Explores index (step :: rest) context cursor
      ⟨.failed cause, (step.read context cursor).context, cursor, [step.visit index context cursor]⟩
  /-- What was read behind the argument is final, and nobody comes back to it. -/
  | dropped {index : Nat} {step : Step} {rest : List Step} {context : Context} {cursor : Cursor}
      {signal : Signal} {skipping : Exploration}
      (sent : (step.read context cursor).outcome = .error (.deferred signal))
      (others : Explores (index + 1) rest (step.read context cursor).context cursor skipping)
      (finished : skipping.ending.isFinished = true) :
    Explores index (step :: rest) context cursor
      (skipping.after [step.visit index context cursor])
  | unresolved {index : Nat} {step : Step} {rest : List Step} {context : Context}
      {cursor : Cursor} {signal : Signal} {skipping : Exploration} {cause : ArgumentError}
      (passed : Passed step context cursor signal skipping)
      (others : Explores (index + 1) rest (step.read context cursor).context cursor skipping)
      (came : step.verdict context cursor signal skipping = .error cause) :
    Explores index (step :: rest) context cursor
      ⟨.failed cause, (step.answer context cursor signal skipping).context,
        skipping.start cursor, step.visits context cursor signal skipping index⟩
  | finished {index : Nat} {step : Step} {context : Context} {cursor : Cursor} {signal : Signal}
      {skipping : Exploration} {value : Option Value}
      (passed : Passed step context cursor signal skipping)
      (others : Explores (index + 1) [] (step.read context cursor).context cursor skipping)
      (came : step.verdict context cursor signal skipping = .ok value)
      (consumes : step.consumes context cursor signal skipping = true) :
    Explores index [step] context cursor
      ⟨.finished, (step.answer context cursor signal skipping).context,
        (step.answer context cursor signal skipping).cursor,
        step.visits context cursor signal skipping index⟩
  | restarted {index : Nat} {step next : Step} {rest : List Step} {context : Context}
      {cursor : Cursor} {signal : Signal} {skipping onward : Exploration} {value : Option Value}
      (passed : Passed step context cursor signal skipping)
      (others : Explores (index + 1) (next :: rest) (step.read context cursor).context cursor
        skipping)
      (came : step.verdict context cursor signal skipping = .ok value)
      (consumes : step.consumes context cursor signal skipping = true)
      (again : Explores (index + 1) (next :: rest)
        (step.answer context cursor signal skipping).context
        (step.answer context cursor signal skipping).cursor onward) :
    Explores index (step :: next :: rest) context cursor
      (onward.after (step.visits context cursor signal skipping index))
  | resolved {index : Nat} {step : Step} {rest : List Step} {context : Context} {cursor : Cursor}
      {signal : Signal} {skipping : Exploration} {value : Option Value}
      (passed : Passed step context cursor signal skipping)
      (others : Explores (index + 1) rest (step.read context cursor).context cursor skipping)
      (came : step.verdict context cursor signal skipping = .ok value)
      (stays : step.consumes context cursor signal skipping = false) :
    Explores index (step :: rest) context cursor
      ⟨skipping.ending, (step.answer context cursor signal skipping).context.merge
        skipping.context, skipping.cursor, step.visits context cursor signal skipping index⟩

section

variable {index : Nat} {step : Step} {rest : List Step} {context : Context} {cursor : Cursor}

theorem explore_of_read {value : Option Value}
    (came : (step.read context cursor).outcome = .ok value) :
    explore index (step :: rest) context cursor =
      (explore (index + 1) rest (step.read context cursor).context
        (step.read context cursor).cursor).after [step.visit index context cursor] := by
  simp only [explore, came]
  rfl

theorem explore_of_failed {cause : ArgumentError}
    (came : (step.read context cursor).outcome = .error (.error cause)) :
    explore index (step :: rest) context cursor =
      ⟨.failed cause, (step.read context cursor).context, cursor,
        [step.visit index context cursor]⟩ := by
  simp only [explore, came]
  rfl

theorem explore_of_sent {signal : Signal} {skipping : Exploration}
    (passed : Passed step context cursor signal skipping)
    (others : explore (index + 1) rest (step.read context cursor).context cursor = skipping) :
    let answer := step.answer context cursor signal skipping
    let visits := step.visits context cursor signal skipping index
    explore index (step :: rest) context cursor =
      match step.verdict context cursor signal skipping with
      | .error cause => ⟨.failed cause, answer.context, skipping.start cursor, visits⟩
      | .ok _ =>
        if step.consumes context cursor signal skipping then
          if rest.isEmpty then ⟨.finished, answer.context, answer.cursor, visits⟩
          else (explore (index + 1) rest answer.context answer.cursor).after visits
        else
          ⟨skipping.ending, answer.context.merge skipping.context, skipping.cursor, visits⟩ := by
  rw [explore]
  simp only [passed.sent, others, passed.unfinished, Bool.false_eq_true, if_false]
  unfold Step.verdict
  -- An answer that ignores the tokens in front of it fails whatever its outcome is.
  by_cases ignores : Visit.leavesInput (skipping.start cursor)
      (step.answer context cursor signal skipping) = true
  · rw [if_pos ignores]
    exact if_pos ignores
  · rw [if_neg ignores]
    exact if_neg ignores

end

/-- The rules describe reading completely. -/
theorem explores_explore (index : Nat) (steps : List Step) (context : Context) (cursor : Cursor) :
    Explores index steps context cursor (explore index steps context cursor) := by
  induction steps generalizing index context cursor with
  | nil => exact .reached ..
  | cons step rest ih =>
    cases came : (step.read context cursor).outcome with
    | ok value =>
      rw [explore_of_read came]
      exact .read came (ih ..)
    | error failure =>
      cases failure with
      | error cause =>
        rw [explore_of_failed came]
        exact .failed came
      | deferred signal =>
        -- The others are read first, from where the argument stands.
        have others := ih (index + 1) (step.read context cursor).context cursor
        generalize same : explore (index + 1) rest _ cursor = skipping at others
        cases ending : skipping.ending.isFinished with
        | true =>
          simp only [explore, came, same, ending, if_true]
          exact .dropped came others ending
        | false =>
          have passed := Passed.mk came ending
          rw [explore_of_sent passed same]
          cases verdict : step.verdict context cursor signal skipping with
          | error cause => exact .unresolved passed others verdict
          | ok value =>
            cases consumes : step.consumes context cursor signal skipping with
            | false => exact .resolved passed others verdict consumes
            | true =>
              cases rest with
              | nil => exact .finished passed others verdict consumes
              | cons next rest => exact .restarted passed others verdict consumes (ih ..)

end CommandLine
