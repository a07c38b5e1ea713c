import CommandLine.Argument.Build
import CommandLine.Command.Parse
import CommandLine.Proofs.Exploring
import CommandLine.Proofs.Resolving
import CommandLine.Proofs.Steadiness

/-! A command with a single argument that may wait.

Such a command is read in one of three ways, of which the first that succeeds
counts: the argument decides at once, it is resolved behind the others, or it is
resolved at its own place and takes tokens there. The search with its deferrals
comes to the same, and this is the form to reason with about such a command.
-/

set_option autoImplicit false

namespace CommandLine

variable {σ : Type}

def Argument.readAll (input : Input σ) (arguments : List (Argument σ)) (context : Context)
    (cursor : Cursor) : Attempt ArgumentError Unit :=
  Reading.inOrder (readers input .storing arguments) context cursor

namespace Command

open Argument (readAll)

def finish (command : Command σ) (attempt : Attempt ArgumentError Unit) :
    Except ArgumentError Context :=
  match attempt.outcome with
  | .error cause => .error cause
  | .ok () =>
    match command.leftover? attempt.context attempt.cursor with
    | some cause => .error cause
    | none => .ok attempt.context

section

variable (command : Command σ) (input : Input σ) (primary producer : Argument σ)
  (post : List (Argument σ))

/-- Resolves the argument at its own place, where it has to take tokens. If it takes none, its first
error `cause` stands while any are in front of it, and `otherwise` stands if it would succeed. -/
def insist (context : Context) (cursor : Cursor) (cause otherwise : ArgumentError) :
    Except ArgumentError Context :=
  let answer := (Argument.fallback primary producer).resolve input context cursor
    (.raised primary.name cause) true
  if Visit.consumes cursor answer then
    command.finish (readAll input post answer.context answer.cursor)
  else if cursor.hasNext then .error cause
  else
    match answer.outcome with
    | .error refusal => .error refusal
    | .ok _ => .error otherwise

/-- Reads the others in place of the argument, which is resolved behind them if no token is left.
Where they leave some, the argument has tokens in front of it as well, and `cause` stands. -/
def passOver (context : Context) (cursor : Cursor) (cause : ArgumentError) :
    Except ArgumentError Context :=
  let others := readAll input post context cursor
  match others.outcome with
  | .error failure => command.insist input primary producer post context cursor cause failure
  | .ok () =>
    if others.cursor.hasNext then
      command.insist input primary producer post context cursor cause cause
    else
      let answer := (Argument.fallback primary producer).resolve input context cursor.toEnd
        (.raised primary.name cause) false
      match answer.outcome with
      | .error refusal => .error refusal
      | .ok _ => .ok (answer.context.merge others.context)

def readOnward (context : Context) (cursor : Cursor) : Except ArgumentError Context :=
  let reading := primary.read input .storing context cursor
  match reading.outcome with
  | .ok _ => command.finish (readAll input post reading.context reading.cursor)
  | .error failure =>
    command.passOver input primary producer post context cursor failure.rootCause

/-- The choice between the three ways, with the arguments `pre` in front of the one that may
wait. -/
def choice (pre : List (Argument σ)) (cursor : Cursor) : Except ArgumentError Context :=
  let before := readAll input pre .empty cursor
  match before.outcome with
  | .error cause => .error cause
  | .ok () => command.readOnward input primary producer post before.context before.cursor

end

end Command

namespace Argument

variable {input : Input σ}

theorem readAll_of_read {argument : Argument σ} {context : Context} {cursor : Cursor}
    {value : Option Value}
    (came : (argument.read input .storing context cursor).outcome = .ok value)
    (rest : List (Argument σ)) :
    readAll input (argument :: rest) context cursor =
      (readAll input rest (argument.read input .storing context cursor).context
        (argument.read input .storing context cursor).cursor).after
          (argument.read input .storing context cursor).events := by
  simp only [readAll, readers, Reading.inOrder, came]

theorem outcome_readAll_of_failed {argument : Argument σ} {context : Context} {cursor : Cursor}
    {cause : ArgumentError}
    (came : (argument.read input .storing context cursor).outcome = .error (.error cause))
    (rest : List (Argument σ)) :
    (readAll input (argument :: rest) context cursor).outcome = .error cause := by
  simp only [readAll, readers, Reading.inOrder, came]
  rfl

theorem outcome_read_fallback {primary : Argument σ} {context : Context} {cursor : Cursor}
    {cause : ArgumentError}
    (came : (primary.read input .storing context cursor).outcome = .error (.error cause))
    (producer : Argument σ) :
    ((fallback primary producer).read input .storing context cursor).outcome =
      .error (.deferred (.raised primary.name cause)) := by
  show ((primary.read input .storing context cursor).postponed primary.name).outcome = _
  simp only [Reading.postponed, came]

theorem reaches_readAll (input : Input σ) (arguments : List (Argument σ)) (context : Context)
    (cursor : Cursor) : cursor.Reaches (readAll input arguments context cursor).cursor := by
  have ofReaders := backtracks_readers fun argument (_ : argument ∈ arguments) =>
    backtracks_read input .storing argument
  exact (Reading.inOrder_reaches ofReaders context cursor).1

section

variable {pre : List (Argument σ)}

theorem explore_of_readAll (steady : ∀ argument ∈ pre, argument.isFallback = false) (index : Nat)
    (rest : List Step) {context : Context} {cursor : Cursor}
    (done : (readAll input pre context cursor).outcome = .ok ()) :
    ∃ visits, explore index (pre.map (·.step input) ++ rest) context cursor =
      (explore (index + pre.length) rest (readAll input pre context cursor).context
        (readAll input pre context cursor).cursor).after visits := by
  induction pre generalizing index context cursor with
  | nil => exact ⟨[], rfl⟩
  | cons argument others ih =>
    obtain ⟨first, later⟩ := List.forall_mem_cons.mp steady
    cases came : (argument.read input .storing context cursor).outcome with
    | ok value =>
      rw [readAll_of_read came] at done ⊢
      obtain ⟨visits, whole⟩ := ih later (index + 1) done
      refine ⟨(argument.step input).visit index context cursor :: visits, ?_⟩
      have length : index + (argument :: others).length = index + 1 + others.length := by
        rw [List.length_cons]
        omega
      rw [List.map_cons, List.cons_append, explore_of_read came, length]
      exact congrArg (Exploration.after · [(argument.step input).visit index context cursor]) whole
    | error failure =>
      cases failure with
      | deferred signal =>
        exact absurd came (decided_read input first .storing context cursor signal)
      | error cause =>
        rw [outcome_readAll_of_failed came] at done
        cases done

theorem ending_explore_of_failed (steady : ∀ argument ∈ pre, argument.isFallback = false)
    (index : Nat) (rest : List Step) {context : Context} {cursor : Cursor} {cause : ArgumentError}
    (failed : (readAll input pre context cursor).outcome = .error cause) :
    (explore index (pre.map (·.step input) ++ rest) context cursor).ending = .failed cause := by
  induction pre generalizing index context cursor with
  | nil => cases failed
  | cons argument others ih =>
    obtain ⟨first, later⟩ := List.forall_mem_cons.mp steady
    rw [List.map_cons, List.cons_append]
    cases came : (argument.read input .storing context cursor).outcome with
    | ok value =>
      rw [readAll_of_read came] at failed
      rw [explore_of_read came]
      exact ih later (index + 1) failed
    | error failure =>
      cases failure with
      | deferred signal =>
        exact absurd came (decided_read input first .storing context cursor signal)
      | error cause =>
        rw [outcome_readAll_of_failed came] at failed
        rw [explore_of_failed came]
        exact congrArg Ending.failed (Except.error.inj failed)

end

theorem explore_all_cases (input : Input σ) {post : List (Argument σ)}
    (steady : ∀ argument ∈ post, argument.isFallback = false) (index : Nat) (context : Context)
    (cursor : Cursor) :
    let whole := explore index (post.map (·.step input)) context cursor
    let others := readAll input post context cursor
    (∃ cause, others.outcome = .error cause ∧ whole.ending = .failed cause) ∨
      (others.outcome = .ok () ∧ whole.ending = .reached ∧ whole.context = others.context ∧
        whole.cursor = others.cursor) := by
  intro whole others
  have same : whole = explore index (post.map (·.step input) ++ []) context cursor := by
    rw [List.append_nil]
  cases came : others.outcome with
  | error cause =>
    exact .inl ⟨cause, rfl, same ▸ ending_explore_of_failed steady index [] came⟩
  | ok =>
    obtain ⟨visits, eq⟩ := explore_of_readAll steady index [] came
    rw [← same] at eq
    exact .inr ⟨rfl, congrArg (·.ending) eq, congrArg (·.context) eq, congrArg (·.cursor) eq⟩

end Argument

namespace Command

open Argument (readAll explore_all_cases explore_of_readAll ending_explore_of_failed)

variable {command : Command σ} {input : Input σ}

def settle (command : Command σ) (exploration : Exploration) : Except ArgumentError Context :=
  match exploration.ending with
  | .failed cause => .error cause
  | _ =>
    match command.leftover? exploration.context exploration.cursor with
    | some cause => .error cause
    | none => .ok exploration.context

theorem result_parse (cursor : Cursor) : (command.parse input cursor).result =
    command.settle (explore 0 (command.arguments.map (·.step input)) .empty cursor) := rfl

theorem settle_of_done {exploration : Exploration} (unfailed : exploration.ending.isFailed = false)
    (done : exploration.cursor.hasNext = false) :
    command.settle exploration = .ok exploration.context := by
  have nothing : exploration.cursor.peek = none := by
    simpa [Cursor.peek, Cursor.hasNext] using done
  unfold settle leftover?
  rw [nothing]
  cases ending : exploration.ending with
  | failed => rw [ending] at unfailed; cases unfailed
  | _ => rfl

theorem settle_explore {post : List (Argument σ)}
    (steady : ∀ argument ∈ post, argument.isFallback = false) (index : Nat) (context : Context)
    (cursor : Cursor) :
    command.settle (explore index (post.map (·.step input)) context cursor) =
      command.finish (readAll input post context cursor) := by
  unfold settle finish
  rcases explore_all_cases _ steady index context cursor with
    ⟨cause, came, ending⟩ | ⟨came, ending, context, cursor⟩
  · rw [came, ending]
  · rw [came, ending, context, cursor]

section

variable {primary producer : Argument σ} {post : List (Argument σ)} {index : Nat}
  {context : Context} {cursor : Cursor} {cause otherwise : ArgumentError}
  {skipping : Exploration}

structure Waits (input : Input σ) (primary : Argument σ) (post : List (Argument σ)) (index : Nat)
    (context : Context) (cursor : Cursor) (cause : ArgumentError) (skipping : Exploration) :
    Prop where
  steady : ∀ argument ∈ post, argument.isFallback = false
  failed : (primary.read input .storing context cursor).outcome = .error (.error cause)
  others : explore (index + 1) (post.map (·.step input)) context cursor = skipping

namespace Waits

theorem unfinished (h : Waits input primary post index context cursor cause skipping) :
    skipping.ending.isFinished = false := by
  obtain ⟨steady, -, rfl⟩ := h
  rcases explore_all_cases _ steady (index + 1) context cursor with
    ⟨cause, -, ending⟩ | ⟨-, ending, -⟩
  · rw [ending]
    rfl
  · rw [ending]
    rfl

theorem passed (h : Waits input primary post index context cursor cause skipping)
    (producer : Argument σ) :
    Passed ((Argument.fallback primary producer).step input) context cursor
      (.raised primary.name cause) skipping where
  sent := Argument.outcome_read_fallback h.failed producer
  unfinished := h.unfinished

theorem context_read (h : Waits input primary post index context cursor cause skipping)
    (producer : Argument σ) :
    (((Argument.fallback primary producer).step input).read context cursor).context = context :=
  (Argument.backtracks_read input .storing (.fallback primary producer) context cursor).failed _
    (h.passed producer).sent

theorem answer_eq (h : Waits input primary post index context cursor cause skipping)
    (producer : Argument σ) :
    ((Argument.fallback primary producer).step input).answer context cursor
        (.raised primary.name cause) skipping =
      (Argument.fallback primary producer).resolve input context (skipping.start cursor)
        (.raised primary.name cause) skipping.wentWrong := by
  unfold Step.answer
  rw [h.context_read producer]
  rfl

/-- The command follows the verdict on the argument. -/
theorem settle_eq (h : Waits input primary post index context cursor cause skipping)
    (command : Command σ) (producer : Argument σ) :
    let step := (Argument.fallback primary producer).step input
    let signal := Signal.raised primary.name cause
    let answer := step.answer context cursor signal skipping
    command.settle (explore index (step :: post.map (·.step input)) context cursor) =
      match step.verdict context cursor signal skipping with
      | .error refusal => .error refusal
      | .ok _ =>
        if step.consumes context cursor signal skipping then
          command.finish (readAll input post answer.context answer.cursor)
        else
          command.settle ⟨skipping.ending, answer.context.merge skipping.context,
            skipping.cursor, []⟩ := by
  intro step signal answer
  have others : explore (index + 1) (post.map (·.step input)) (step.read context cursor).context
      cursor = skipping := by
    rw [h.context_read producer]
    exact h.others
  rw [explore_of_sent (h.passed producer) others]
  cases step.verdict context cursor signal skipping with
  | error refusal => rfl
  | ok value =>
    cases step.consumes context cursor signal skipping with
    | false => rfl
    | true =>
      -- Having taken tokens, the last argument ends the run, and any other has it start over.
      cases post with
      | nil => rfl
      | cons next rest => exact settle_explore h.steady (index + 1) answer.context answer.cursor

end Waits

theorem settle_of_wrong (h : Waits input primary post index context cursor cause skipping)
    (command : Command σ) (producer : Argument σ) (wrong : skipping.wentWrong = true)
    (told : cursor.hasNext = false → skipping.ending = .failed otherwise) :
    command.settle (explore index
      ((Argument.fallback primary producer).step input :: post.map (·.step input)) context cursor) =
        command.insist input primary producer post context cursor cause otherwise := by
  rw [h.settle_eq]
  unfold Step.verdict Step.consumes insist
  -- What follows went wrong, so that the argument is resolved where it stands.
  have start : skipping.start cursor = cursor := if_pos wrong
  rw [h.answer_eq, start, wrong]
  generalize (Argument.fallback primary producer).resolve input context cursor
    (.raised primary.name cause) true = answer
  dsimp only
  cases consumed : Visit.consumes cursor answer with
  | true =>
    have heeds : Visit.leavesInput cursor answer = false := by simp [Visit.leavesInput, consumed]
    cases came : answer.outcome with
    | error refusal => simp [Visit.consumes, came, Except.isOk, Except.toBool] at consumed
    | ok value =>
      rw [heeds]
      rfl
  | false =>
    have ignores : Visit.leavesInput cursor answer = cursor.hasNext := by
      simp [Visit.leavesInput, consumed]
    rw [ignores]
    cases left : cursor.hasNext with
    | true => rfl
    | false =>
      cases came : answer.outcome with
      | error refusal => rfl
      | ok value =>
        simp only [Bool.false_eq_true, if_false]
        unfold settle
        rw [told left]

theorem not_consumes_toEnd (fallback : Argument σ) (signal : Signal) (parsingFailed : Bool) :
    Visit.consumes cursor.toEnd
      (fallback.resolve input context cursor.toEnd signal parsingFailed) = false := by
  have kept := (Argument.alwaysKeeps_resolve input fallback context cursor.toEnd signal
    parsingFailed).forward
  have stays : (fallback.resolve input context cursor.toEnd signal parsingFailed).cursor.position =
      cursor.toEnd.position := Nat.le_antisymm kept.within kept.forward
  simp [Visit.consumes, stays]

theorem settle_of_right (h : Waits input primary post index context cursor cause skipping)
    (command : Command σ) (producer : Argument σ) (reached : skipping.ending = .reached)
    (done : skipping.cursor = cursor.toEnd) :
    let answer := (Argument.fallback primary producer).resolve input context cursor.toEnd
      (.raised primary.name cause) false
    command.settle (explore index
      ((Argument.fallback primary producer).step input :: post.map (·.step input)) context cursor) =
        match answer.outcome with
        | .error refusal => .error refusal
        | .ok _ => .ok (answer.context.merge skipping.context) := by
  intro answer
  -- There the argument can neither take a token nor ignore one.
  have last : cursor.toEnd.hasNext = false := by simp [Cursor.hasNext, Cursor.toEnd]
  have right : skipping.wentWrong = false := by
    rw [Exploration.wentWrong, reached, done, last]
    rfl
  have start : skipping.start cursor = cursor.toEnd := by simp [Exploration.start, right, done]
  have stays : Visit.consumes cursor.toEnd answer = false := not_consumes_toEnd ..
  have heeds : Visit.leavesInput cursor.toEnd answer = false := by simp [Visit.leavesInput, last]
  rw [h.settle_eq]
  unfold Step.verdict Step.consumes
  rw [h.answer_eq, start, right, heeds, stays]
  simp only [Bool.false_eq_true, if_false]
  cases answer.outcome with
  | error refusal => rfl
  | ok value =>
    have nothing : cursor.toEnd.peek = none := by simp [Cursor.peek, Cursor.toEnd]
    simp only [settle, reached, done, leftover?, nothing]
    rfl

/-- From the argument on, a command is read as the choice says. -/
theorem settle_readOnward {command : Command σ}
    (ofPrimary : primary.isFallback = false)
    (ofPost : ∀ argument ∈ post, argument.isFallback = false) (producer : Argument σ) :
    command.settle (explore index
      ((Argument.fallback primary producer).step input :: post.map (·.step input)) context cursor) =
        command.readOnward input primary producer post context cursor := by
  unfold readOnward
  cases came : (primary.read input .storing context cursor).outcome with
  | ok value =>
    have same : ((Argument.fallback primary producer).step input).read context cursor =
        primary.read input .storing context cursor := by
      show (primary.read input .storing context cursor).postponed primary.name = _
      simp only [Reading.postponed, came]
    rw [explore_of_read (same ▸ came), same]
    simp only [came]
    exact settle_explore ofPost ..
  | error failure =>
    cases failure with
    | deferred signal =>
      exact absurd came (Argument.decided_read input ofPrimary .storing context cursor signal)
    | error cause =>
      -- The argument waits, and what the others come to decides where it is resolved.
      have waits : Waits input primary post index context cursor cause _ := ⟨ofPost, came, rfl⟩
      simp only [came, passOver]
      rcases explore_all_cases input ofPost (index + 1) context cursor with
        ⟨failure, others, ending⟩ | ⟨others, ending, stored, stands⟩
      · rw [others]
        refine settle_of_wrong waits command producer ?_ fun _ => ending
        rw [Exploration.wentWrong, ending]
        rfl
      · rw [others]
        have ahead := Argument.reaches_readAll input post context cursor
        dsimp only
        cases left : (readAll input post context cursor).cursor.hasNext with
        | true =>
          refine settle_of_wrong waits command producer ?_ fun none => ?_
          · rw [Exploration.wentWrong, stands, left, Bool.or_true]
          · -- The tokens that the others left were there from the start.
            exact absurd ((ahead.hasNext left).symm.trans none) Bool.noConfusion
        | false =>
          rw [settle_of_right waits command producer ending (stands.trans (ahead.eq_toEnd left)),
            stored]
          rfl

end

/-- A command in which one argument alone may wait is read in the first of three ways that
succeeds. -/
theorem parse_eq_choice (command : Command σ) (input : Input σ) (pre : List (Argument σ))
    (primary producer : Argument σ) (post : List (Argument σ))
    (arguments : command.arguments = pre ++ .fallback primary producer :: post)
    (ofPre : ∀ argument ∈ pre, argument.isFallback = false)
    (ofPrimary : primary.isFallback = false)
    (ofPost : ∀ argument ∈ post, argument.isFallback = false) (cursor : Cursor) :
    (command.parse input cursor).result =
      command.choice input primary producer post pre cursor := by
  rw [result_parse, arguments, List.map_append, List.map_cons]
  unfold choice
  cases came : (readAll input pre .empty cursor).outcome with
  | error cause =>
    simp only [settle, ending_explore_of_failed ofPre 0 _ came, came]
  | ok =>
    obtain ⟨visits, whole⟩ := explore_of_readAll ofPre 0
      ((Argument.fallback primary producer).step input :: post.map (·.step input)) came
    rw [whole]
    simp only [came]
    exact settle_readOnward ofPrimary ofPost producer

def give : Command Unit where
  arguments :=
    [.literal "verb" "give",
      .orDefault (.integer ⟨"count", none⟩ ⟨true, 32, false⟩) (.integer ⟨true, 32, false⟩ 1),
      .text ⟨"player", none⟩ false]
  distinct := by decide

theorem parse_give_eq_choice :
    ∃ context, (give.parse ⟨(), 20⟩ (.ofList ["give", "steve"])).result = .ok context ∧
      context.entries = [("count", .integer ⟨true, 32, false⟩ 1), ("player", .text "steve")] ∧
      (give.parse ⟨(), 20⟩ (.ofList ["give", "steve"])).result =
        give.choice ⟨(), 20⟩ (.integer ⟨"count", none⟩ ⟨true, 32, false⟩)
          (.fixed ⟨"count", some "count"⟩ (.integer ⟨true, 32, false⟩ 1))
          [.text ⟨"player", none⟩ false] [.literal "verb" "give"] (.ofList ["give", "steve"]) :=
  ⟨_, rfl, rfl, parse_eq_choice give ⟨(), 20⟩ _ _ _ _ rfl (List.forall_mem_singleton.mpr rfl) rfl
    (List.forall_mem_singleton.mpr rfl) _⟩

end Command

end CommandLine
