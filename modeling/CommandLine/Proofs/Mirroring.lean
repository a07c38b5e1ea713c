import CommandLine.Proofs.Advancing
import CommandLine.Proofs.Choice
import CommandLine.Proofs.Overlooking

/-! Two runs side by side.

Two lists of arguments are interchangeable if exploring them from the same tokens,
with contexts that are alike, ends alike. Putting the same argument before both
keeps them so: it is read, resolved and started over from at the same places.
-/

set_option autoImplicit false

namespace CommandLine

variable {near far : Sight}

/-- A failure counts by its cause alone. -/
inductive Exploration.Alike (sight : Sight) (left right : Exploration) : Prop where
  | failed {cause cause' : ArgumentError} (ofLeft : left.ending = .failed cause)
      (ofRight : right.ending = .failed cause') (same : sight.Errors cause cause')
  | done (unfailed : left.ending.isFailed = false) (ending : left.ending = right.ending)
      (context : sight.Contexts left.context right.context)
      (cursor : left.cursor.Level right.cursor)

namespace Exploration.Alike

variable {left right : Exploration}

theorem after (h : left.Alike far right) (earlier earlier' : List Visit) :
    (left.after earlier).Alike far (right.after earlier') := by
  cases h with
  | failed ofLeft ofRight same => exact .failed ofLeft ofRight same
  | done unfailed ending context cursor => exact .done unfailed ending context cursor

theorem isFinished (h : left.Alike far right) :
    left.ending.isFinished = right.ending.isFinished := by
  cases h with
  | failed ofLeft ofRight => rw [ofLeft, ofRight]; rfl
  | done _ ending => rw [ending]

theorem wentWrong (h : left.Alike far right) : left.wentWrong = right.wentWrong := by
  unfold Exploration.wentWrong
  cases h with
  | failed ofLeft ofRight => rw [ofLeft, ofRight]; rfl
  | done _ ending _ cursor => rw [ending, cursor.hasNext]

theorem start (h : left.Alike far right) {cursor cursor' : Cursor} (level : cursor.Level cursor') :
    (left.start cursor).Level (right.start cursor') := by
  unfold Exploration.start
  rw [h.wentWrong]
  split
  · exact level
  · next right' =>
    cases h with
    | failed _ ofRight => exact absurd (by rw [Exploration.wentWrong, ofRight]; rfl) right'
    | done _ _ _ cursor => exact cursor

end Exploration.Alike

namespace Visit

variable {cursor cursor' : Cursor} {resolution resolution' : Resolution}

theorem consumes_eq (level : cursor.Level cursor') (forward : cursor.Reaches resolution.cursor)
    (forward' : cursor'.Reaches resolution'.cursor) (same : resolution.Alike near resolution') :
    consumes cursor resolution = consumes cursor' resolution' := by
  have advance := level.advance forward forward' same.cursor
  have ahead := forward.forward
  have ahead' := forward'.forward
  have taken : (resolution.cursor.position != cursor.position) =
      (resolution'.cursor.position != cursor'.position) := by
    rw [Bool.eq_iff_iff, bne_iff_ne, bne_iff_ne]
    omega
  have isOk : resolution.outcome.isOk = resolution'.outcome.isOk := by
    refine same.outcome.elim ?ok ?error
    case ok => exact fun _ => rfl
    case error => exact fun _ => rfl
  rw [consumes, consumes, isOk, taken]

end Visit

structure Step.Overlooks (sight : Sight) (step : Step) : Prop where
  read : step.read.Overlooks sight
  resolve : step.resolve.Overlooks sight

namespace Step.Overlooks

variable {step : Step} {context context' : Context} {cursor cursor' : Cursor}
  {signal signal' : Signal} {skipping skipping' : Exploration}

theorem answer (h : step.Overlooks near) (contexts : near.Contexts context context')
    (level : cursor.Level cursor') (signals : near.Signals signal signal')
    (others : skipping.Alike far skipping') :
    Resolution.Alike near (step.answer context cursor signal skipping)
      (step.answer context' cursor' signal' skipping') := by
  unfold Step.answer
  rw [others.wentWrong]
  exact h.resolve _ (h.read contexts level).context (others.start level) signals

theorem consumes (h : step.Overlooks near) (advances : step.Advances)
    (contexts : near.Contexts context context') (level : cursor.Level cursor')
    (signals : near.Signals signal signal') (others : skipping.Alike far skipping') :
    step.consumes context cursor signal skipping =
      step.consumes context' cursor' signal' skipping' :=
  Visit.consumes_eq (others.start level) (advances.resolve ..) (advances.resolve ..)
    (h.answer contexts level signals others)

theorem verdict (h : step.Overlooks near) (advances : step.Advances)
    (contexts : near.Contexts context context') (level : cursor.Level cursor')
    (signals : near.Signals signal signal') (others : skipping.Alike far skipping') :
    Outcomes near.Errors (Option.Rel near.Values) (step.verdict context cursor signal skipping)
      (step.verdict context' cursor' signal' skipping') := by
  have consumes := h.consumes advances contexts level signals others
  unfold Step.consumes at consumes
  unfold Step.verdict Visit.leavesInput
  rw [consumes, (others.start level).hasNext]
  split
  · exact .error signals.rootCause
  · exact (h.answer contexts level signals others).outcome

end Step.Overlooks

theorem explore_of_dropped {index : Nat} {step : Step} {rest : List Step} {context : Context}
    {cursor : Cursor} {signal : Signal}
    (sent : (step.read context cursor).outcome = .error (.deferred signal))
    (finished : (explore (index + 1) rest (step.read context cursor).context
      cursor).ending.isFinished = true) :
    explore index (step :: rest) context cursor =
      (explore (index + 1) rest (step.read context cursor).context cursor).after
        [step.visit index context cursor] := by
  simp only [explore, sent, finished, if_true]
  rfl

/-- From contexts that are alike to `near` and level cursors, exploring the one list or the other
ends alike to `far`. -/
structure Interchangeable (near far : Sight) (left right : List Step) : Prop where
  isEmpty : left.isEmpty = right.isEmpty
  explore : ∀ index index' {context context' cursor cursor'}, near.Contexts context context' →
    cursor.Level cursor' → (explore index left context cursor).Alike far
      (explore index' right context' cursor')

theorem Reading.Alike.outcome_cases {left right : Reading} (h : left.Alike near right) :
    (∃ value value', left.outcome = .ok value ∧ right.outcome = .ok value') ∨
      (∃ cause cause', left.outcome = .error (.error cause) ∧
        right.outcome = .error (.error cause') ∧ near.Errors cause cause') ∨
      ∃ signal signal', left.outcome = .error (.deferred signal) ∧
        right.outcome = .error (.deferred signal') ∧ near.Signals signal signal' := by
  refine h.outcome.elim (fun _ => .inl ⟨_, _, rfl, rfl⟩) (fun same => .inr ?_)
  cases same with
  | error same => exact .inl ⟨_, _, rfl, rfl, same⟩
  | deferred same => exact .inr ⟨_, _, rfl, rfl, same⟩

namespace Interchangeable

variable {left right : List Step}

theorem nil (finer : near.Finer far) : Interchangeable near far [] [] where
  isEmpty := rfl
  explore _ _ _ _ _ _ contexts level := .done rfl rfl (finer.contexts contexts) level

theorem cons (h : Interchangeable near far left right) (finer : near.Finer far) {step : Step}
    (overlooks : step.Overlooks near) (advances : step.Advances) :
    Interchangeable near far (step :: left) (step :: right) where
  isEmpty := rfl
  explore index index' context context' cursor cursor' contexts level := by
    have read := overlooks.read contexts level
    -- Both read it, both refuse it, or both put it off.
    rcases read.outcome_cases with ⟨value, value', came, came'⟩ |
      ⟨cause, cause', came, came', same⟩ | ⟨signal, signal', sent, sent', signals⟩
    · rw [explore_of_read came, explore_of_read came']
      exact (h.explore _ _ read.context read.cursor).after _ _
    · rw [explore_of_failed came, explore_of_failed came']
      exact .failed rfl rfl (finer.errors same)
    · have others := h.explore (index + 1) (index' + 1) read.context level
      cases finished : (CommandLine.explore (index + 1) left (step.read context cursor).context
          cursor).ending.isFinished with
      | true =>
        rw [explore_of_dropped sent finished,
          explore_of_dropped sent' (others.isFinished.symm.trans finished)]
        exact others.after _ _
      | false =>
        have answer := overlooks.answer contexts level signals others
        have verdict := overlooks.verdict advances contexts level signals others
        rw [explore_of_sent ⟨sent, finished⟩ rfl,
          explore_of_sent ⟨sent', others.isFinished.symm.trans finished⟩ rfl,
          overlooks.consumes advances contexts level signals others, h.isEmpty]
        refine verdict.elim (fun _ => ?_) (fun same => .failed rfl rfl (finer.errors same))
        dsimp only
        split
        · -- Tokens were taken: the rest starts over behind them.
          split
          · exact .done rfl rfl (finer.contexts answer.context) answer.cursor
          · exact (h.explore _ _ answer.context answer.cursor).after _ _
        · -- None were: what the rest came to stays, and its entries go on top.
          cases others with
          | failed ofLeft ofRight same => exact .failed ofLeft ofRight same
          | done unfailed ending context cursor =>
            exact .done unfailed ending ((finer.contexts answer.context).merge context) cursor

end Interchangeable

variable {σ : Type}

theorem Argument.overlooks_step {input : Input σ} {argument : Argument σ}
    (impartial : argument.Everywhere (·.Impartial near input)) :
    (argument.step input).Overlooks near :=
  ⟨overlooks_read .storing impartial, overlooks_resolve impartial⟩

/-- Arguments in front of interchangeable lists leave them so. -/
theorem Interchangeable.append {left right : List Step} (h : Interchangeable near far left right)
    (finer : near.Finer far) {input : Input σ} {arguments : List (Argument σ)}
    (impartial : ∀ argument ∈ arguments, argument.Everywhere (·.Impartial near input)) :
    Interchangeable near far (arguments.map (·.step input) ++ left)
      (arguments.map (·.step input) ++ right) := by
  induction arguments with
  | nil => exact h
  | cons argument rest ih =>
    obtain ⟨first, others⟩ := List.forall_mem_cons.mp impartial
    exact (ih others).cons finer (Argument.overlooks_step first) (argument.advances_step input)

end CommandLine
