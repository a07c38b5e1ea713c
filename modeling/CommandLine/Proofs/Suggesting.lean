import CommandLine.Command.Complete
import CommandLine.Proofs.Backtracking
import CommandLine.Proofs.Steadiness

/-! Suggestions of a command, and those of a sequence of the same arguments.

Both read their arguments in order to find the ones that the last token may
belong to. They part at the first argument that fails without taking a token: the
command asks it and stops, while the sequence takes it for hidden and goes on.
-/

set_option autoImplicit false

namespace CommandLine

variable {σ : Type}

theorem Cursor.hasNext_eq (cursor : Cursor) :
    cursor.hasNext = decide (0 < cursor.remainingCount) :=
  decide_eq_decide.mpr Nat.sub_pos_iff_lt.symm

namespace Completion

variable {limit : Nat} {found : List String} {context : Context} {cursor : Cursor}

theorem extend_of_full (full : limit ≤ found.length) (more : List String) :
    extend limit found more = found := by
  simp [extend, Nat.sub_eq_zero_of_le full]

theorem suggestions_inOrder_of_done {parts : List Part} (done : cursor.hasNext = false) :
    (inOrder limit parts context cursor found).suggestions = found := by
  cases parts with
  | nil => rfl
  | cons => simp [inOrder, done]

theorem suggestions_inOrder_of_full {parts : List Part} (full : limit ≤ found.length) :
    (inOrder limit parts context cursor found).suggestions = found := by
  induction parts generalizing context cursor with
  | nil => rfl
  | cons part rest ih =>
    unfold inOrder
    simp only [extend_of_full full, if_pos full]
    split
    · rfl
    · split
      · exact ih
      · split
        · exact ih
        · rfl

section

variable {part : Part} {rest : List Part} {reading : Reading} (here : cursor.hasNext = true)
  (made : part.read context cursor = reading)
include here made

theorem suggestions_inOrder_of_passed (came : reading.outcome.isOk = true)
    (moved : reading.cursor.remainingCount ≠ cursor.remainingCount)
    (left : reading.cursor.hasNext = true) :
    (inOrder limit (part :: rest) context cursor found).suggestions =
      (inOrder limit rest reading.context reading.cursor found).suggestions := by
  simp [inOrder, here, made, came, moved, left, after]

theorem suggestions_inOrder_of_idle (came : reading.outcome.isOk = true)
    (idle : reading.cursor.remainingCount = cursor.remainingCount) :
    (inOrder limit (part :: rest) context cursor found).suggestions =
      (inOrder limit rest reading.context cursor
        (extend limit found (part.complete reading.context cursor).suggestions)).suggestions := by
  by_cases full : limit ≤
      (extend limit found (part.complete reading.context cursor).suggestions).length
  · rw [suggestions_inOrder_of_full full]
    simp [inOrder, here, made, came, idle, full]
  · simp [inOrder, here, made, came, idle, full, after]

theorem suggestions_inOrder_of_hidden (failed : reading.outcome.isOk = false)
    (idle : reading.cursor.remainingCount = cursor.remainingCount) :
    (inOrder limit (part :: rest) context cursor found).suggestions =
      (inOrder limit rest reading.context cursor found).suggestions := by
  simp [inOrder, here, made, failed, idle, after]

theorem suggestions_inOrder_of_last
    (last : reading.outcome.isOk = true → reading.cursor.hasNext = false)
    (moved : reading.cursor.remainingCount ≠ cursor.remainingCount) :
    (inOrder limit (part :: rest) context cursor found).suggestions =
      extend limit found (part.complete reading.context cursor).suggestions := by
  cases came : reading.outcome.isOk with
  | true => simp [inOrder, here, made, came, moved, last came]
  | false => simp [inOrder, here, made, came, moved]

end

end Completion

namespace Argument

structure Stall (σ : Type) where
  before : List (Argument σ)
  argument : Argument σ
  behind : List (Argument σ)
  context : Context
  cursor : Cursor

/-- The first argument that fails without taking a token, if reading gets there. -/
def stall? (input : Input σ) : List (Argument σ) → Context → Cursor → Option (Stall σ)
  | [], _, _ => none
  | argument :: rest, context, cursor =>
    if !cursor.hasNext then none
    else
      let reading := argument.read input .storing context cursor
      match reading.outcome with
      | .ok _ =>
        (stall? input rest reading.context reading.cursor).map fun stall =>
          { stall with before := argument :: stall.before }
      | .error _ =>
        if reading.cursor.remainingCount = cursor.remainingCount then
          some ⟨[], argument, rest, context, cursor⟩
        else none

def part (input : Input σ) (argument : Argument σ) : Completion.Part :=
  ⟨argument.read input .storing, argument.complete input⟩

/-- What a command and a sequence suggest, `ofCommand` and `ofSequence`, if an argument fails where
it stands. Both have looked for suggestions from `context`, `cursor` and `found` on. -/
structure Stall.SetsApart (stall : Stall σ) (input : Input σ) (arguments : List (Argument σ))
    (context : Context) (cursor : Cursor) (found ofCommand ofSequence : List String) : Prop where
  split : arguments = stall.before ++ stall.argument :: stall.behind
  stands : ∃ cause reading, stall.argument.read input .storing stall.context stall.cursor = reading ∧
    reading.outcome = .error (.error cause) ∧ reading.context = stall.context ∧
      reading.cursor.remainingCount = stall.cursor.remainingCount
  /-- The command asks the argument, and nothing behind it. -/
  command : ofCommand = Completion.extend input.maxSuggestions
    (suggestFrom input stall.before context cursor found).suggestions
    (stall.argument.complete input stall.context stall.cursor).suggestions
  /-- The sequence goes on from where the argument stands. -/
  sequence : ofSequence =
    (Completion.inOrder input.maxSuggestions (completionParts input stall.behind) stall.context
      stall.cursor (suggestFrom input stall.before context cursor found).suggestions).suggestions

section

variable {input : Input σ} {argument : Argument σ} {rest : List (Argument σ)} {context : Context}
  {cursor : Cursor} {found : List String}

theorem suggestions_suggestFrom_of_done {arguments : List (Argument σ)}
    (done : cursor.hasNext = false) :
    (suggestFrom input arguments context cursor found).suggestions = found := by
  cases arguments with
  | nil => rfl
  | cons => simp [suggestFrom, done]

theorem suggestions_suggestFrom_of_full {arguments : List (Argument σ)}
    (full : input.maxSuggestions ≤ found.length) :
    (suggestFrom input arguments context cursor found).suggestions = found := by
  induction arguments generalizing context cursor with
  | nil => rfl
  | cons argument rest ih =>
    unfold suggestFrom
    simp only [Completion.extend_of_full full, full, decide_true, Bool.true_or, if_true]
    split
    · rfl
    · split
      · exact ih
      · rfl

theorem stall?_of_done {arguments : List (Argument σ)} (done : cursor.hasNext = false) :
    stall? input arguments context cursor = none := by
  cases arguments with
  | nil => rfl
  | cons => simp [stall?, done]

section

variable {reading : Reading} (here : cursor.hasNext = true)
  (made : argument.read input .storing context cursor = reading)
include here made

theorem suggestions_suggestFrom_of_passed (passed : argument.stops? cursor reading = none) :
    (suggestFrom input (argument :: rest) context cursor found).suggestions =
      (suggestFrom input rest reading.context reading.cursor found).suggestions := by
  simp [suggestFrom, here, made, passed, Completion.after]

theorem suggestions_suggestFrom_of_asked (asked : argument.stops? cursor reading = some false) :
    (suggestFrom input (argument :: rest) context cursor found).suggestions =
      (suggestFrom input rest reading.context cursor
        (Completion.extend input.maxSuggestions found
          (argument.complete input reading.context cursor).suggestions)).suggestions := by
  by_cases full : input.maxSuggestions ≤ (Completion.extend input.maxSuggestions found
      (argument.complete input reading.context cursor).suggestions).length
  · rw [suggestions_suggestFrom_of_full full]
    simp [suggestFrom, here, made, asked, full]
  · simp [suggestFrom, here, made, asked, full, Completion.after]

theorem suggestions_suggestFrom_of_stops (stops : argument.stops? cursor reading = some true) :
    (suggestFrom input (argument :: rest) context cursor found).suggestions =
      Completion.extend input.maxSuggestions found
        (argument.complete input reading.context cursor).suggestions := by
  simp [suggestFrom, here, made, stops]

end

theorem stops?_of_failed {reading : Reading} {cause : ArgumentError}
    (failed : reading.outcome = .error (.error cause)) (shown : argument.reduced ≠ "") :
    argument.stops? cursor reading = some true := by
  simp [stops?, failed, shown]

theorem stops?_of_done {reading : Reading} {value : Option Value}
    (came : reading.outcome = .ok value) (done : reading.cursor.hasNext = false) :
    argument.stops? cursor reading = some true := by
  simp [stops?, came, done]

section

variable {reading : Reading} (made : argument.read input .storing context cursor = reading)
include made

theorem suggestions_of_left {value : Option Value} (came : reading.outcome = .ok value)
    (left : reading.cursor.hasNext = true) (found : List String) :
    ∃ more,
      (∀ rest, (suggestFrom input (argument :: rest) context cursor found).suggestions =
        (suggestFrom input rest reading.context reading.cursor more).suggestions) ∧
      ∀ parts, (Completion.inOrder input.maxSuggestions (argument.part input :: parts) context
          cursor found).suggestions =
        (Completion.inOrder input.maxSuggestions parts reading.context reading.cursor
          more).suggestions := by
  have forward := (backtracks_read input .storing argument context cursor).forward
  rw [made] at forward
  have here := forward.hasNext left
  have isOk : reading.outcome.isOk = true := by rw [came]; rfl
  by_cases idle : reading.cursor.remainingCount = cursor.remainingCount
  · have asked : argument.stops? cursor reading = some false := by
      simp [stops?, came, left, idle]
    have same := forward.eq_of_remainingCount idle
    refine ⟨Completion.extend input.maxSuggestions found
      (argument.complete input reading.context cursor).suggestions, fun rest => ?_, fun parts => ?_⟩
    · rw [suggestions_suggestFrom_of_asked here made asked, same]
    · rw [Completion.suggestions_inOrder_of_idle here made isOk idle, same]
      rfl
  · have passed : argument.stops? cursor reading = none := by
      simp [stops?, came, left, idle]
    exact ⟨found, fun rest => suggestions_suggestFrom_of_passed here made passed,
      fun parts => Completion.suggestions_inOrder_of_passed here made isOk idle left⟩

variable (here : cursor.hasNext = true)
include here

theorem stall?_of_ok {value : Option Value} (came : reading.outcome = .ok value) :
    stall? input (argument :: rest) context cursor =
      (stall? input rest reading.context reading.cursor).map fun stall =>
        { stall with before := argument :: stall.before } := by
  simp [stall?, here, made, came]

theorem stall?_of_failed {failure : Failure} (failed : reading.outcome = .error failure) :
    stall? input (argument :: rest) context cursor =
      if reading.cursor.remainingCount = cursor.remainingCount then
        some ⟨[], argument, rest, context, cursor⟩
      else none := by
  simp [stall?, here, made, failed]

theorem suggestions_of_last (stops : argument.stops? cursor reading = some true)
    (last : reading.outcome.isOk = true → reading.cursor.hasNext = false)
    (moved : reading.cursor.remainingCount ≠ cursor.remainingCount) :
    (suggestFrom input (argument :: rest) context cursor found).suggestions =
      (Completion.inOrder input.maxSuggestions (completionParts input (argument :: rest)) context
        cursor found).suggestions := by
  calc (suggestFrom input (argument :: rest) context cursor found).suggestions
    _ = Completion.extend input.maxSuggestions found
          (argument.complete input reading.context cursor).suggestions :=
      suggestions_suggestFrom_of_stops here made stops
    _ = (Completion.inOrder input.maxSuggestions (argument.part input :: completionParts input rest)
          context cursor found).suggestions :=
      Eq.symm (Completion.suggestions_inOrder_of_last here made last moved)

theorem setsApart_of_stands {cause : ArgumentError}
    (failed : reading.outcome = .error (.error cause)) (shown : argument.reduced ≠ "")
    (stands : reading.cursor.remainingCount = cursor.remainingCount) :
    Stall.SetsApart ⟨[], argument, rest, context, cursor⟩ input (argument :: rest) context cursor
      found (suggestFrom input (argument :: rest) context cursor found).suggestions
      (Completion.inOrder input.maxSuggestions (completionParts input (argument :: rest)) context
        cursor found).suggestions := by
  have kept := (backtracks_read input .storing argument context cursor).failed _ (made ▸ failed)
  rw [made] at kept
  have notOk : reading.outcome.isOk = false := by rw [failed]; rfl
  refine ⟨rfl, ⟨cause, reading, made, failed, kept, stands⟩, ?_, ?_⟩
  · rw [suggestions_suggestFrom_of_stops here made (stops?_of_failed failed shown), kept]
    rfl
  · calc (Completion.inOrder input.maxSuggestions (completionParts input (argument :: rest)) context
            cursor found).suggestions
      _ = (Completion.inOrder input.maxSuggestions (completionParts input rest) reading.context
            cursor found).suggestions :=
        Completion.suggestions_inOrder_of_hidden here made notOk stands
      _ = (Completion.inOrder input.maxSuggestions (completionParts input rest) context cursor
            found).suggestions := by rw [kept]

end

theorem suggestions_until_stall {arguments : List (Argument σ)}
    (steady : ∀ argument ∈ arguments, argument.isFallback = false)
    (shown : ∀ argument ∈ arguments, argument.reduced ≠ "") (input : Input σ) (context : Context)
    (cursor : Cursor) (found : List String) :
    match stall? input arguments context cursor with
    | none =>
      (suggestFrom input arguments context cursor found).suggestions =
        (Completion.inOrder input.maxSuggestions (completionParts input arguments) context cursor
          found).suggestions
    | some stall =>
      stall.SetsApart input arguments context cursor found
        (suggestFrom input arguments context cursor found).suggestions
        (Completion.inOrder input.maxSuggestions (completionParts input arguments) context cursor
          found).suggestions := by
  induction arguments generalizing context cursor found with
  | nil => rfl
  | cons argument rest ih =>
    obtain ⟨decides, othersDecide⟩ := List.forall_mem_cons.mp steady
    obtain ⟨visible, othersVisible⟩ := List.forall_mem_cons.mp shown
    cases here : cursor.hasNext with
    | false =>
      rw [stall?_of_done here]
      show _ = _
      rw [suggestions_suggestFrom_of_done here, Completion.suggestions_inOrder_of_done here]
    | true =>
      generalize made : argument.read input .storing context cursor = reading
      match came : reading.outcome with
      | .ok value =>
        rw [stall?_of_ok made here came]
        cases left : reading.cursor.hasNext with
        | false =>
          -- The last token was taken here, so nobody behind the argument is reached.
          rw [stall?_of_done left]
          have moved : reading.cursor.remainingCount ≠ cursor.remainingCount := by
            intro same
            rw [Cursor.hasNext_eq, same, ← Cursor.hasNext_eq, here] at left
            cases left
          exact suggestions_of_last made here (stops?_of_done came left) (fun _ => left) moved
        | true =>
          obtain ⟨more, ofCommand, ofSequence⟩ := suggestions_of_left made came left found
          have ofRest := ih othersDecide othersVisible reading.context reading.cursor more
          cases parts : stall? input rest reading.context reading.cursor with
          | none =>
            rw [parts] at ofRest
            exact (ofCommand rest).trans (ofRest.trans (ofSequence _).symm)
          | some stall =>
            rw [parts] at ofRest
            refine ⟨congrArg _ ofRest.split, ofRest.stands, ?_, ?_⟩
            · rw [ofCommand, ofCommand]
              exact ofRest.command
            · rw [ofCommand]
              exact (ofSequence _).trans ofRest.sequence
      | .error (.deferred signal) =>
        have decided := decided_read input decides .storing context cursor
        exact absurd (made ▸ came) (decided signal)
      | .error (.error cause) =>
        rw [stall?_of_failed made here came]
        by_cases stands : reading.cursor.remainingCount = cursor.remainingCount
        · rw [if_pos stands]
          exact setsApart_of_stands made here came visible stands
        · rw [if_neg stands]
          refine suggestions_of_last made here (stops?_of_failed came visible) ?_ stands
          rw [came]
          exact nofun

end

end Argument

namespace Command

/-- A command and a sequence of its arguments make the same suggestions, unless an argument fails
where it stands: the command then ends with what it suggests. -/
theorem complete_until_stall (command : Command σ)
    (steady : ∀ argument ∈ command.arguments, argument.isFallback = false)
    (shown : ∀ argument ∈ command.arguments, argument.reduced ≠ "") (input : Input σ)
    (label : Label) (compute : Context → Except ArgumentError Value) (joinsFormats : Bool)
    (cursor : Cursor) :
    let sequence := Argument.sequence label command.arguments compute joinsFormats
    match Argument.stall? input command.arguments .empty cursor with
    | none =>
      (command.complete input cursor).suggestions =
        (sequence.complete input .empty cursor).suggestions
    | some stall =>
      stall.SetsApart input command.arguments .empty cursor []
        (command.complete input cursor).suggestions
        (sequence.complete input .empty cursor).suggestions := by
  simp only [Argument.complete, Completion.sequence]
  exact Argument.suggestions_until_stall steady shown input .empty cursor []

def countdown : Command Unit where
  arguments := [.named (.integer ⟨"n", none⟩ ⟨false, 32, false⟩), .literal "go" "go"]
  distinct := by decide

/-- The command waits for the number, and the sequence offers what follows it. -/
theorem countdown_asks_its_number :
    let sequence := Argument.sequence ⟨"countdown", none⟩ countdown.arguments
      (fun context => .ok (.ofContext context)) true
    countdown.arguments ≠ [] ∧
      (∀ argument ∈ countdown.arguments, argument.isFallback = false) ∧
      (∀ argument ∈ countdown.arguments, argument.reduced ≠ "") ∧
      (countdown.complete ⟨(), 20⟩ (.ofList ["g"])).suggestions = [] ∧
      (sequence.complete ⟨(), 20⟩ .empty (.ofList ["g"])).suggestions = ["go"] := by
  exact ⟨nofun, by decide, by decide, rfl, rfl⟩

/-- The two agree once the number is given, and part where it is not. -/
theorem complete_countdown_until_stall :
    let sequence := Argument.sequence ⟨"countdown", none⟩ countdown.arguments
      (fun context => .ok (.ofContext context)) true
    (∀ argument ∈ countdown.arguments, argument.isFallback = false) ∧
      (∀ argument ∈ countdown.arguments, argument.reduced ≠ "") ∧
      (countdown.complete ⟨(), 20⟩ (.ofList ["n=3", "g"])).suggestions =
        (sequence.complete ⟨(), 20⟩ .empty (.ofList ["n=3", "g"])).suggestions ∧
      ∃ stall : Argument.Stall Unit, stall.argument.name = "n" ∧
        stall.SetsApart ⟨(), 20⟩ countdown.arguments .empty (.ofList ["g"]) []
          (countdown.complete ⟨(), 20⟩ (.ofList ["g"])).suggestions
          (sequence.complete ⟨(), 20⟩ .empty (.ofList ["g"])).suggestions := by
  have steady : ∀ argument ∈ countdown.arguments, argument.isFallback = false := by decide
  have shown : ∀ argument ∈ countdown.arguments, argument.reduced ≠ "" := by decide
  have agrees := complete_until_stall countdown steady shown ⟨(), 20⟩ ⟨"countdown", none⟩
    (fun context => .ok (.ofContext context)) true
  exact ⟨steady, shown, agrees (.ofList ["n=3", "g"]), _, rfl, agrees (.ofList ["g"])⟩

end Command

end CommandLine
