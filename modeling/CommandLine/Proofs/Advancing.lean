import CommandLine.Argument.Build
import CommandLine.Command.Parse
import CommandLine.Proofs.Exploring
import CommandLine.Proofs.Resolving

/-! Which way the cursor moves while a list of arguments is read.

Neither reading an argument nor resolving it moves the cursor back. Behind the
last token nothing can be taken, so a resolution that takes tokens is one at the
place where its argument stands.
-/

set_option autoImplicit false

namespace CommandLine

namespace Visit

variable {cursor : Cursor} {resolution : Resolution}

theorem lt_of_consumes (forward : cursor.Reaches resolution.cursor)
    (takes : consumes cursor resolution = true) :
    cursor.position < resolution.cursor.position := by
  have ahead := forward.forward
  simp only [consumes, Bool.and_eq_true, bne_iff_ne] at takes
  omega

theorem hasNext_of_consumes (forward : cursor.Reaches resolution.cursor)
    (takes : consumes cursor resolution = true) : cursor.hasNext = true := by
  have ahead := lt_of_consumes forward takes
  exact decide_eq_true (Nat.lt_of_lt_of_le ahead forward.within)

end Visit

structure Step.Advances (step : Step) : Prop where
  read : ∀ context (cursor : Cursor), cursor.Reaches (step.read context cursor).cursor
  resolve : ∀ context (cursor : Cursor) signal parsingFailed,
    cursor.Reaches (step.resolve context cursor signal parsingFailed).cursor

theorem Argument.advances_step {σ : Type} (input : Input σ) (argument : Argument σ) :
    (argument.step input).Advances where
  read context cursor := (backtracks_read input .storing argument context cursor).forward
  resolve context cursor signal parsingFailed :=
    (alwaysKeeps_resolve input argument context cursor signal parsingFailed).forward

theorem Argument.advances_steps {σ : Type} (input : Input σ) (arguments : List (Argument σ)) :
    ∀ step ∈ arguments.map (·.step input), step.Advances := by
  intro step inside
  obtain ⟨argument, -, rfl⟩ := List.mem_map.mp inside
  exact argument.advances_step input

namespace Exploration

variable {skipping : Exploration} {cursor : Cursor}

theorem reaches_start (h : cursor.Reaches skipping.cursor) :
    cursor.Reaches (skipping.start cursor) := by
  unfold start
  split
  · exact .refl _
  · exact h

theorem start_of_wrong (wrong : skipping.wentWrong = true) : skipping.start cursor = cursor :=
  if_pos wrong

theorem start_of_right (right : skipping.wentWrong = false) :
    skipping.start cursor = skipping.cursor :=
  if_neg (Bool.eq_false_iff.mp right)

end Exploration

namespace Step

variable {step : Step} {context : Context} {cursor : Cursor} {signal : Signal}
  {skipping : Exploration}

theorem Advances.answer (h : step.Advances) (others : cursor.Reaches skipping.cursor) :
    cursor.Reaches (step.answer context cursor signal skipping).cursor :=
  (Exploration.reaches_start others).trans (h.resolve ..)

/-- Only where the others went wrong are there tokens left for the argument to take. -/
theorem Advances.wentWrong_of_consumes (h : step.Advances)
    (takes : step.consumes context cursor signal skipping = true) :
    skipping.wentWrong = true := by
  have left := Visit.hasNext_of_consumes (h.resolve ..) takes
  cases wrong : skipping.wentWrong with
  | true => rfl
  | false =>
    obtain ⟨-, done⟩ := Bool.or_eq_false_iff.mp wrong
    rw [Exploration.start_of_right wrong] at left
    exact absurd (done.symm.trans left) Bool.noConfusion

theorem Advances.start_of_consumes (h : step.Advances)
    (takes : step.consumes context cursor signal skipping = true) :
    skipping.start cursor = cursor :=
  Exploration.start_of_wrong (h.wentWrong_of_consumes takes)

theorem Advances.lt_answer (h : step.Advances)
    (takes : step.consumes context cursor signal skipping = true) :
    cursor.position < (step.answer context cursor signal skipping).cursor.position := by
  have ahead : (skipping.start cursor).position <
      (step.answer context cursor signal skipping).cursor.position :=
    Visit.lt_of_consumes (h.resolve ..) takes
  rwa [h.start_of_consumes takes] at ahead

end Step

namespace Explores

variable {index : Nat} {steps : List Step} {context : Context} {cursor : Cursor}
  {exploration : Exploration}

theorem reaches (h : Explores index steps context cursor exploration)
    (advance : ∀ step ∈ steps, step.Advances) : cursor.Reaches exploration.cursor := by
  induction h with
  | reached => exact .refl _
  | failed => exact .refl _
  | read _ _ ih =>
    obtain ⟨head, others⟩ := List.forall_mem_cons.mp advance
    exact (head.read ..).trans (ih others)
  | dropped _ _ _ ih => exact ih (List.forall_mem_cons.mp advance).2
  | unresolved _ _ _ ih =>
    exact Exploration.reaches_start (ih (List.forall_mem_cons.mp advance).2)
  | finished _ _ _ _ ih =>
    obtain ⟨head, others⟩ := List.forall_mem_cons.mp advance
    exact head.answer (ih others)
  | restarted _ _ _ _ _ ofSkipping ofOnward =>
    obtain ⟨head, others⟩ := List.forall_mem_cons.mp advance
    exact (head.answer (ofSkipping others)).trans (ofOnward others)
  | resolved _ _ _ _ ih => exact ih (List.forall_mem_cons.mp advance).2

end Explores

end CommandLine
