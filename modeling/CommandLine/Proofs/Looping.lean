import CommandLine.Command.Loop
import CommandLine.Proofs.Advancing
import CommandLine.Proofs.Deferral

/-! The loop reads arguments in the way that `explore` does.

At any argument the loop comes to where exploring the arguments from there on
leads, and then takes whatever was pending before from the stack. The stack
itself holds what waits by the visits.
-/

set_option autoImplicit false

namespace CommandLine

theorem Cursor.restore_eq {cursor other : Cursor} (same : cursor.tokens = other.tokens) :
    cursor.restore other.position = other := by
  ext1
  · exact same
  · show min other.position cursor.tokens.length = other.position
    rw [same]
    exact Nat.min_eq_left other.position_le

namespace Resolution

variable {start : Cursor} {resolution : Resolution}

theorem stood_of_ok {value : Option Value} (came : resolution.outcome = .ok value) :
    resolution.stood start = resolution.cursor := by
  simp only [stood, came]

variable (forward : start.Reaches resolution.cursor)
include forward

theorem moved_eq_consumes :
    ((resolution.stood start).position != start.position) = Visit.consumes start resolution := by
  unfold stood Visit.consumes
  cases resolution.outcome with
  | ok value => rfl
  | error cause =>
    simp [Cursor.restore_eq forward.tokens, Except.isOk, Except.toBool]

theorem stood_of_stays (stays : Visit.consumes start resolution = false) :
    resolution.stood start = start := by
  rw [← moved_eq_consumes forward, bne_eq_false_iff_eq] at stays
  refine Cursor.ext ?_ stays
  unfold stood
  split <;> exact forward.tokens

end Resolution

def Ending.failure? : Ending → Option ArgumentError
  | .failed cause => some cause
  | _ => none

theorem Ending.isSome_failure? (ending : Ending) : ending.failure?.isSome = ending.isFailed := by
  cases ending <;> rfl

theorem Ending.failure?_of_finished {ending : Ending} (finished : ending.isFinished = true) :
    ending.failure? = none := by
  cases ending <;> first | rfl | cases finished

def Pending.deferral {count : Nat} (pending : Pending count) : Deferral :=
  ⟨pending.index, pending.context, pending.signal⟩

def Step.waiting {count : Nat} (step : Step) (index : Fin count) (context : Context)
    (cursor : Cursor) (signal : Signal) : Pending count :=
  ⟨index, signal, (step.read context cursor).context, cursor.position⟩

variable {steps : List Step} {context : Context} {cursor : Cursor} {visits : List Visit}
  {pending : List (Pending steps.length)}

theorem resolvePending_of_lt {index : Fin steps.length} (more : index.val + 1 < steps.length) :
    resolvePending steps index none context cursor visits pending =
      (.ok index, ⟨context, cursor, pending, visits⟩) := by
  cases pending with
  | nil => rfl
  | cons last previous => simp [resolvePending, more]

/-- After a failure reading goes on from an argument that was pending, or not at all. -/
theorem resolvePending_failed (index other : Fin steps.length) (cause : ArgumentError) :
    resolvePending steps index (some cause) context cursor visits pending =
      resolvePending steps other (some cause) context cursor visits pending := by
  induction pending generalizing context cursor visits with
  | nil => rfl
  | cons last previous ih =>
    simp only [resolvePending, Option.isNone_some, Bool.false_and, Bool.false_eq_true, if_false, ih]

section

variable {index : Nat} {inside : index < steps.length}

/-- What the loop does once pending arguments have been resolved. -/
def follow (steps : List Step) :
    Except ArgumentError (Fin steps.length) × Progress steps.length →
      Except ArgumentError Unit × Progress steps.length
  | (.error cause, stopped) => (.error cause, stopped)
  | (.ok next, onward) => loop steps (next + 1) onward

theorem loop_of_length_le (done : steps.length ≤ index) (progress : Progress steps.length) :
    loop steps index progress = (.ok (), progress) := by
  rw [loop, dif_neg (Nat.not_lt.mpr done)]

theorem loop_of_lt (inside : index < steps.length) (progress : Progress steps.length) :
    loop steps index progress =
      let read := progress.read steps ⟨index, inside⟩
      follow steps (resolvePending steps ⟨index, inside⟩ read.1 read.2.context read.2.cursor
        read.2.visits read.2.pending) := by
  rw [loop, dif_pos inside]
  dsimp only
  split <;> simp only [follow, *]

variable {step : Step}

theorem loop_of_read (first : steps[index] = step) {value : Option Value}
    (came : (step.read context cursor).outcome = .ok value) :
    loop steps index ⟨context, cursor, pending, visits⟩ =
      follow steps (resolvePending steps ⟨index, inside⟩ none (step.read context cursor).context
        (step.read context cursor).cursor (visits ++ [step.visit index context cursor])
        pending) := by
  rw [loop_of_lt inside]
  simp only [Progress.read, List.get_eq_getElem, first, came]
  rfl

theorem loop_of_failed (first : steps[index] = step) (advances : step.Advances)
    {cause : ArgumentError} (came : (step.read context cursor).outcome = .error (.error cause)) :
    loop steps index ⟨context, cursor, pending, visits⟩ =
      follow steps (resolvePending steps ⟨index, inside⟩ (some cause)
        (step.read context cursor).context cursor (visits ++ [step.visit index context cursor])
        pending) := by
  have back := Cursor.restore_eq (advances.read context cursor).tokens
  rw [loop_of_lt inside]
  simp only [Progress.read, List.get_eq_getElem, first, came, back]
  rfl

theorem loop_of_sent (first : steps[index] = step) (advances : step.Advances) {signal : Signal}
    (sent : (step.read context cursor).outcome = .error (.deferred signal)) :
    loop steps index ⟨context, cursor, pending, visits⟩ =
      follow steps (resolvePending steps ⟨index, inside⟩ none (step.read context cursor).context
        cursor (visits ++ [step.visit index context cursor])
        (step.waiting ⟨index, inside⟩ context cursor signal :: pending)) := by
  have back := Cursor.restore_eq (advances.read context cursor).tokens
  rw [loop_of_lt inside]
  simp only [Progress.read, List.get_eq_getElem, first, sent, back]
  rfl

end

section

variable {last : Fin steps.length} {index : Fin steps.length} {step : Step} {signal : Signal}
  {skipping : Exploration}

theorem resolvePending_cons (ends : last.val + 1 = steps.length) (own : steps.get index = step)
    (advances : step.Advances) (forward : cursor.Reaches skipping.cursor) :
    resolvePending steps last skipping.ending.failure? skipping.context skipping.cursor visits
        (step.waiting index context cursor signal :: pending) =
      let answer := step.answer context cursor signal skipping
      let start := skipping.start cursor
      let visits := visits ++ [step.answered context cursor signal skipping index]
      match step.verdict context cursor signal skipping with
      | .error cause =>
        resolvePending steps last (some cause) answer.context start visits pending
      | .ok _ =>
        if step.consumes context cursor signal skipping then
          (.ok index, ⟨answer.context, answer.cursor, pending, visits⟩)
        else
          resolvePending steps last skipping.ending.failure?
            (answer.context.merge skipping.context) skipping.cursor visits pending := by
  have toStart : cursor.Reaches (skipping.start cursor) := Exploration.reaches_start forward
  have toAnswer : (skipping.start cursor).Reaches
      (step.answer context cursor signal skipping).cursor := advances.resolve ..
  rw [resolvePending, if_neg (by simp [ends])]
  extract_lets found parsingFailed start resolution stood consumed logged
  -- The loop gives the argument what `explore` does: its cursor has only to be put back.
  have foundStep : found = step := own
  have failed : parsingFailed = skipping.wentWrong := by
    simp only [parsingFailed, Ending.isSome_failure?]
    rfl
  have started : start = skipping.start cursor := by
    simp only [start, failed, Step.waiting, Cursor.restore_eq forward.tokens]
    rfl
  have resolved : resolution = step.answer context cursor signal skipping := by
    simp only [resolution, foundStep, failed, started, Step.waiting]
    rfl
  have log : logged = visits ++ [step.answered context cursor signal skipping index] := by
    simp only [logged, foundStep, failed, started, resolved, Step.waiting]
    rfl
  have took : consumed = step.consumes context cursor signal skipping := by
    simp only [consumed, stood, started, resolved, Resolution.moved_eq_consumes toAnswer]
    rfl
  have ignores : Visit.leavesInput (skipping.start cursor)
      (step.answer context cursor signal skipping) = ((skipping.start cursor).hasNext &&
        !step.consumes context cursor signal skipping) := rfl
  simp only [Step.verdict, ignores, stood, started, resolved, log, took]
  cases consumes : step.consumes context cursor signal skipping with
  | true =>
    cases came : (step.answer context cursor signal skipping).outcome with
    | error cause =>
      simp [Step.consumes, Visit.consumes, came, Except.isOk, Except.toBool] at consumes
    | ok value =>
      rw [Bool.not_true, Bool.and_false, Resolution.stood_of_ok came]
      rfl
  | false =>
    have back : (skipping.start cursor).restore skipping.cursor.position = skipping.cursor :=
      Cursor.restore_eq (toStart.tokens.trans forward.tokens.symm)
    rw [Resolution.stood_of_stays toAnswer consumes, back]
    cases (skipping.start cursor).hasNext with
    | true => exact resolvePending_failed ..
    | false =>
      cases (step.answer context cursor signal skipping).outcome with
      | error cause => exact resolvePending_failed ..
      | ok value => rfl

end

/-- What the loop comes to, with `visits` made before and `pending` on the stack, if reading on
leads to an exploration. -/
inductive Leads (steps : List Step) (last : Fin steps.length)
    (pending : List (Pending steps.length)) (visits : List Visit) :
    Exploration → Except ArgumentError Unit × Progress steps.length → Prop where
  /-- What has been forgotten stays on the stack. -/
  | finished {exploration : Exploration} (lost : List (Pending steps.length))
      (finished : exploration.ending.isFinished = true)
      (waits : lost.map Pending.deferral = Deferral.waiting exploration.visits) :
    Leads steps last pending visits exploration
      (.ok (), ⟨exploration.context, exploration.cursor, lost ++ pending,
        visits ++ exploration.visits⟩)
  | onward {exploration : Exploration} (unfinished : exploration.ending.isFinished = false) :
    Leads steps last pending visits exploration
      (follow steps (resolvePending steps last exploration.ending.failure? exploration.context
        exploration.cursor (visits ++ exploration.visits) pending))

section

variable {last : Fin steps.length} {index : Nat} {rest : List Step} {exploration : Exploration}
  {outcome : Except ArgumentError Unit × Progress steps.length}

theorem Leads.of_finished (h : Leads steps last pending visits exploration outcome)
    (finished : exploration.ending.isFinished = true) :
    ∃ lost, lost.map Pending.deferral = Deferral.waiting exploration.visits ∧
      outcome = (.ok (), ⟨exploration.context, exploration.cursor, lost ++ pending,
        visits ++ exploration.visits⟩) := by
  cases h with
  | finished lost _ waits => exact ⟨lost, waits, rfl⟩
  | onward unfinished => exact absurd (unfinished.symm.trans finished) Bool.noConfusion

theorem Leads.of_unfinished (h : Leads steps last pending visits exploration outcome)
    (unfinished : exploration.ending.isFinished = false) :
    outcome = follow steps (resolvePending steps last exploration.ending.failure?
      exploration.context exploration.cursor (visits ++ exploration.visits) pending) := by
  cases h with
  | finished _ finished => exact absurd (unfinished.symm.trans finished) Bool.noConfusion
  | onward => rfl

theorem Leads.after {earlier : List Visit}
    (h : Leads steps last pending (visits ++ earlier) exploration outcome)
    (same : Deferral.waiting (exploration.after earlier).visits =
      Deferral.waiting exploration.visits) :
    Leads steps last pending visits (exploration.after earlier) outcome := by
  cases h with
  | finished lost finished waits =>
    rw [List.append_assoc]
    exact .finished lost finished (waits.trans same.symm)
  | onward unfinished =>
    rw [List.append_assoc]
    exact .onward unfinished

theorem of_drop_eq_cons {step : Step} (here : steps.drop index = step :: rest) :
    ∃ inside : index < steps.length, steps[index] = step ∧ steps.drop (index + 1) = rest := by
  have inside : index < steps.length := by
    have length := congrArg List.length here
    simp only [List.length_drop, List.length_cons] at length
    omega
  rw [List.drop_eq_getElem_cons inside] at here
  exact ⟨inside, List.cons.inj here⟩

end

section

variable {last : Fin steps.length} {index : Nat} {step : Step} {rest : List Step}
  {exploration : Exploration} (advance : ∀ step ∈ steps, step.Advances)
  (ends : last.val + 1 = steps.length)

section

variable (others : Explores (index + 1) rest context cursor exploration)
  (onward : steps.drop (index + 1) = rest → rest ≠ [] → ∀ pending visits,
    Leads steps last pending visits exploration
      (loop steps (index + 1) ⟨context, cursor, pending, visits⟩))
include ends others onward

/-- An argument that did not fail is left behind: nothing is resolved before the last one. -/
theorem leads_behind (here : steps.drop index = step :: rest) (inside : index < steps.length)
    (pending : List (Pending steps.length)) (visits : List Visit) :
    Leads steps last pending visits exploration
      (follow steps (resolvePending steps ⟨index, inside⟩ none context cursor visits pending)) := by
  obtain ⟨-, -, behind⟩ := of_drop_eq_cons here
  cases rest with
  | nil =>
    cases others
    have final : ⟨index, inside⟩ = last := by
      have length := List.drop_eq_nil_iff.mp behind
      exact Fin.ext (by dsimp only; omega)
    have reached : Leads steps last pending visits ⟨.reached, context, cursor, []⟩ _ := .onward rfl
    rw [final]
    rwa [List.append_nil] at reached
  | cons next rest =>
    obtain ⟨more, -, -⟩ := of_drop_eq_cons behind
    rw [resolvePending_of_lt more]
    exact onward behind (List.cons_ne_nil _ _) pending visits

end

include advance ends

theorem loop_of_passed (here : steps.drop index = step :: rest) {signal : Signal}
    {skipping : Exploration} (passed : Passed step context cursor signal skipping)
    (others : Explores (index + 1) rest (step.read context cursor).context cursor skipping)
    (onward : steps.drop (index + 1) = rest → rest ≠ [] → ∀ pending visits,
      Leads steps last pending visits skipping
        (loop steps (index + 1) ⟨(step.read context cursor).context, cursor, pending, visits⟩)) :
    loop steps index ⟨context, cursor, pending, visits⟩ =
      let answer := step.answer context cursor signal skipping
      let visits := visits ++ step.visits context cursor signal skipping index
      match step.verdict context cursor signal skipping with
      | .error cause =>
        follow steps (resolvePending steps last (some cause) answer.context
          (skipping.start cursor) visits pending)
      | .ok _ =>
        if step.consumes context cursor signal skipping then
          loop steps (index + 1) ⟨answer.context, answer.cursor, pending, visits⟩
        else
          follow steps (resolvePending steps last skipping.ending.failure?
            (answer.context.merge skipping.context) skipping.cursor visits pending) := by
  obtain ⟨inside, first, behind⟩ := of_drop_eq_cons here
  have advances := advance step (first ▸ List.getElem_mem inside)
  have forward := others.reaches fun other found =>
    advance other (List.mem_of_mem_drop (behind ▸ found))
  have skipped := leads_behind ends others onward here inside
    (step.waiting ⟨index, inside⟩ context cursor signal :: pending)
    (visits ++ [step.visit index context cursor])
  rw [loop_of_sent first advances passed.sent, skipped.of_unfinished passed.unfinished,
    resolvePending_cons ends first advances forward]
  simp only [Step.visits, List.append_assoc, List.cons_append, List.nil_append]
  cases step.verdict context cursor signal skipping with
  | error cause => rfl
  | ok value => cases step.consumes context cursor signal skipping <;> rfl

theorem leads_loop (h : Explores index rest context cursor exploration)
    (here : steps.drop index = rest) (some : rest ≠ []) (pending : List (Pending steps.length))
    (visits : List Visit) :
    Leads steps last pending visits exploration
      (loop steps index ⟨context, cursor, pending, visits⟩) := by
  -- What is on the stack below is not looked at before these arguments have been read or one fails.
  induction h generalizing pending visits with
  | reached => exact absurd rfl some
  | read came others ih =>
    obtain ⟨inside, first, -⟩ := of_drop_eq_cons here
    rw [loop_of_read first came]
    exact (leads_behind ends others ih here inside ..).after (Explores.waiting_read came _)
  | failed came =>
    obtain ⟨inside, first, -⟩ := of_drop_eq_cons here
    have advances := advance _ (first ▸ List.getElem_mem inside)
    rw [loop_of_failed first advances came, resolvePending_failed _ last]
    exact .onward rfl
  | dropped sent others finished ih =>
    obtain ⟨inside, first, -⟩ := of_drop_eq_cons here
    have advances := advance _ (first ▸ List.getElem_mem inside)
    obtain ⟨lost, waits, came⟩ :=
      (leads_behind ends others ih here inside _ _).of_finished finished
    -- What those behind the argument left on the stack is above what was kept of it.
    rw [loop_of_sent first advances sent, came, List.append_cons,
      List.append_assoc visits]
    refine .finished _ finished ?_
    rw [Explores.waiting_dropped sent others, List.map_append, waits]
    rfl
  | unresolved passed others came ih =>
    rw [loop_of_passed advance ends here passed others ih]
    simp only [came]
    exact .onward rfl
  | finished passed others came consumes ih =>
    obtain ⟨-, -, behind⟩ := of_drop_eq_cons here
    rw [loop_of_passed advance ends here passed others ih]
    simp only [came, consumes, if_true]
    rw [loop_of_length_le (List.drop_eq_nil_iff.mp behind)]
    exact .finished [] rfl (Step.foldl_track_visits passed.sent (others.balanced passed) []).symm
  | restarted passed others came consumes again ofSkipping ofOnward =>
    obtain ⟨-, -, behind⟩ := of_drop_eq_cons here
    rw [loop_of_passed advance ends here passed others ofSkipping]
    simp only [came, consumes, if_true]
    exact (ofOnward behind (List.cons_ne_nil _ _) _ _).after (others.waiting_restarted passed _)
  | resolved passed others came stays ih =>
    rw [loop_of_passed advance ends here passed others ih]
    simp only [came, stays, Bool.false_eq_true, if_false]
    exact .onward passed.unfinished

end

/-- The loop makes the visits that `explore` does and ends as it does, and on its stack there is
what waits by the visits. -/
theorem loop_eq_explore (advance : ∀ step ∈ steps, step.Advances) (context : Context)
    (cursor : Cursor) :
    let exploration := explore 0 steps context cursor
    ∃ pending, pending.map Pending.deferral = Deferral.waiting exploration.visits ∧
      loop steps 0 ⟨context, cursor, [], []⟩ =
        (match exploration.ending.failure? with
          | some cause => .error cause
          | none => .ok (),
          ⟨exploration.context, exploration.cursor, pending, exploration.visits⟩) := by
  intro exploration
  have explores : Explores 0 steps context cursor exploration := explores_explore ..
  cases steps with
  | nil => exact ⟨[], rfl, loop_of_length_le (Nat.le_refl 0) _⟩
  | cons first rest =>
    have leads : Leads (first :: rest) ⟨rest.length, Nat.lt_succ_self _⟩ [] [] exploration _ :=
      leads_loop advance rfl explores rfl (List.cons_ne_nil _ _) [] []
    cases finished : exploration.ending.isFinished with
    | true =>
      obtain ⟨lost, waits, came⟩ := leads.of_finished finished
      exact ⟨lost, waits, by rw [came, Ending.failure?_of_finished finished, List.append_nil]; rfl⟩
    | false =>
      refine ⟨[], (explores.waiting_eq_nil finished).symm, (leads.of_unfinished finished).trans ?_⟩
      cases exploration.ending.failure? with
      | some cause => rfl
      | none => exact loop_of_length_le (Nat.le_refl _) _

theorem Command.parse_eq_parseInLoop {σ : Type} (command : Command σ) (input : Input σ)
    (cursor : Cursor) : command.parse input cursor = command.parseInLoop input cursor := by
  obtain ⟨pending, -, came⟩ :=
    loop_eq_explore (Argument.advances_steps input command.arguments) .empty cursor
  unfold parse parseInLoop
  rw [came]
  dsimp only
  cases (explore 0 (command.arguments.map (·.step input)) .empty cursor).ending <;> rfl

end CommandLine
