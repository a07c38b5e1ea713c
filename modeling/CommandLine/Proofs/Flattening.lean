import CommandLine.Proofs.Grouping
import CommandLine.Proofs.TieBreak

/-! An alternation among the alternatives of another.

Its members might as well be alternatives themselves. The inner alternation keeps
of them what the outer one would have remembered, so that the two differ only in
what is stored under the name of the inner one, and in the branch that a signal
takes on its way.
-/

set_option autoImplicit false

namespace CommandLine

open Outcome

/-- Both are errors that are the same, or both wait for the same cause. -/
inductive Failure.SameCause : Failure → Failure → Prop where
  | error (cause : ArgumentError) : SameCause (.error cause) (.error cause)
  | deferred {signal signal' : Signal} (same : signal.rootCause = signal'.rootCause) :
    SameCause (.deferred signal) (.deferred signal')

theorem Failure.SameCause.refl (failure : Failure) : failure.SameCause failure := by
  cases failure with
  | error cause => exact .error cause
  | deferred signal => exact .deferred rfl

/-- The attempts come to the same, up to the signal, at the same place, and their contexts differ
in nothing but the entry under `name`. -/
structure Attempt.SameBut (name : String) (left right : Reading) : Prop where
  outcome : Outcomes Failure.SameCause Eq left.outcome right.outcome
  context : (Sight.except name).Contexts left.context right.context
  cursor : left.cursor = right.cursor

namespace Attempt.SameBut

variable {name : String} {left right left' right' : Reading}

theorem of_silent (h : SameBut name left right) (same : left'.silent = left.silent)
    (same' : right'.silent = right.silent) : SameBut name left' right' := by
  obtain ⟨outcome, context, cursor⟩ := eq_of_silent same
  obtain ⟨outcome', context', cursor'⟩ := eq_of_silent same'
  constructor
  · rw [outcome, outcome']
    exact h.outcome
  · rw [context, context']
    exact h.context
  · rw [cursor, cursor']
    exact h.cursor

theorem of_eq (same : left.silent = right.silent) : SameBut name left right :=
  of_silent ⟨.refl .refl (fun _ => rfl) right.outcome, rfl, rfl⟩ same rfl

theorem kept_self (reading : Reading) (mode : Mode) (name : String) :
    SameBut name (reading.kept mode name) reading := by
  refine ⟨?_, ?_, Reading.cursor_kept ..⟩
  · rw [Reading.outcome_kept]
    exact .refl .refl (fun _ => rfl) _
  · unfold Reading.kept
    split
    · rw [Sight.Contexts, Sight.see_put]
      simp [Sight.except]
    · rfl

theorem kept (h : SameBut name left right) (mode : Mode) (other : String) :
    SameBut name (left.kept mode other) (right.kept mode other) := by
  obtain ⟨outcome, context, cursor, events⟩ := left
  obtain ⟨outcome', context', cursor', events'⟩ := right
  obtain ⟨outcomes, contexts, rfl⟩ := h
  cases mode with
  | viewing => exact ⟨outcomes, contexts, rfl⟩
  | storing =>
    cases outcomes with
    | error same => exact ⟨.error same, contexts, rfl⟩
    | @ok value _ same =>
      cases same
      cases value with
      | none => exact ⟨.ok rfl, contexts, rfl⟩
      | some value => exact ⟨.ok rfl, contexts.put other rfl, rfl⟩

theorem resolved {left right : Resolution}
    (h : SameBut name (left.mapError .error) (right.mapError .error)) :
    left.outcome = right.outcome ∧ left.cursor = right.cursor ∧
      (Sight.except name).Contexts left.context right.context := by
  obtain ⟨outcome, context, cursor, events⟩ := left
  obtain ⟨outcome', context', cursor', events'⟩ := right
  obtain ⟨outcomes, contexts, cursors⟩ := h
  refine ⟨?_, cursors, contexts⟩
  cases outcome with
  | ok value =>
    cases outcome' with
    | ok value' =>
      cases outcomes with
      | ok same => rw [same]
    | error cause' => cases outcomes
  | error cause =>
    cases outcome' with
    | ok value' => cases outcomes
    | error cause' =>
      cases outcomes with
      | error same =>
        cases same
        rfl

end Attempt.SameBut

namespace Outcome

def signals (outcomes : List Outcome) : List Signal :=
  outcomes.filterMap signal?

theorem signal?_eq_some {outcome : Outcome} {signal : Signal} :
    outcome.signal? = some signal ↔ outcome = .error (.deferred signal) := by
  unfold signal?
  split
  next => simp
  next other => simpa using other signal

theorem signals_append (outcomes more : List Outcome) :
    signals (outcomes ++ more) = signals outcomes ++ signals more :=
  List.filterMap_append

theorem causes_cons (outcome : Outcome) (rest : List Outcome) :
    causes (outcome :: rest) = outcome.cause?.toList ++ causes rest := by
  unfold causes
  rw [List.filterMap_cons]
  cases outcome.cause? <;> rfl

theorem map_snd_waiting (first : Nat) (outcomes : List Outcome) :
    (waiting first outcomes).map (·.2) = signals outcomes := by
  induction outcomes generalizing first with
  | nil => rfl
  | cons outcome rest ih =>
    have others := ih (first + 1)
    unfold waiting signals at others ⊢
    rw [List.zipIdx_cons, List.filterMap_cons, List.filterMap_cons]
    cases outcome.signal? with
    | none => exact others
    | some signal => exact congrArg _ others

/-- An alternation waits if a member does, for the cause of the first one. -/
theorem Precedence.signals_cases {name : String} {outcomes : List Outcome} {outcome : Outcome}
    (h : Precedence name outcomes outcome) :
    (signals outcomes = [] ∧ signals [outcome] = []) ∨
      ∃ signal others sent, signals outcomes = signal :: others ∧ signals [outcome] = [sent] ∧
        sent.rootCause = signal.rootCause := by
  have listed := map_snd_waiting 0 outcomes
  cases h with
  | deferred waits =>
    rw [waits] at listed
    exact .inr ⟨_, _, _, listed.symm, rfl, rfl⟩
  | absent decided =>
    rw [decided] at listed
    exact .inl ⟨listed.symm, rfl⟩
  | rejected decided =>
    rw [decided] at listed
    exact .inl ⟨listed.symm, rfl⟩
  | failed decided =>
    rw [decided] at listed
    exact .inl ⟨listed.symm, rfl⟩

end Outcome

namespace Tally

/-- The cause of the first member that waits is the cause of all. -/
theorem deferred_sum (name : String) {outcomes : List Outcome} {signal : Signal}
    {others : List Signal} (waits : signals outcomes = signal :: others) :
    ∃ sent, (sum outcomes).outcome name = .error (.deferred sent) ∧
      sent.rootCause = signal.rootCause := by
  rw [← map_snd_waiting 0] at waits
  obtain ⟨⟨index, first⟩, rest, listed, rfl, -⟩ := List.map_eq_cons_iff.mp waits
  refine ⟨.branched name index first rest, ?_, rfl⟩
  simp [sum, outcome, listed]

theorem outcome_sum (name : String) {outcomes : List Outcome} (decided : signals outcomes = []) :
    (sum outcomes).outcome name =
      if outcomes.any isAbsent then .ok none
      else match ((causes outcomes).find? (·.isRejection)).or
          ((causes outcomes).find? (!·.isRejection)) with
        | some cause => .error (.error cause)
        | none => .ok none := by
  rw [← map_snd_waiting 0, List.map_eq_nil_iff] at decided
  unfold Tally.outcome
  split
  next listed => cases (decided : (sum outcomes).deferred = []).symm.trans listed
  next => rfl

theorem sameCause_of_signals (name : String) {outcomes outcomes' : List Outcome}
    {signal signal' : Signal} {others others' : List Signal}
    (waits : signals outcomes = signal :: others) (waits' : signals outcomes' = signal' :: others')
    (same : signal.rootCause = signal'.rootCause) :
    Outcomes Failure.SameCause Eq ((sum outcomes).outcome name) ((sum outcomes').outcome name) := by
  obtain ⟨sent, came, cause⟩ := deferred_sum name waits
  obtain ⟨sent', came', cause'⟩ := deferred_sum name waits'
  rw [came, came']
  exact .error (.deferred (cause.trans (same.trans cause'.symm)))

theorem sum_nested_decided (name : String) {own : String} {inner : List Outcome}
    {outcome : Outcome} (collapsed : Precedence own inner outcome) (before behind : List Outcome)
    (nested : signals (before ++ outcome :: behind) = [])
    (flat : signals (before ++ inner ++ behind) = []) :
    (sum (before ++ outcome :: behind)).outcome name =
      (sum (before ++ inner ++ behind)).outcome name := by
  rw [outcome_sum name nested, outcome_sum name flat]
  simp only [List.append_assoc, List.any_append, List.any_cons, causes_append,
    causes_cons, List.find?_append]
  cases collapsed with
  | deferred => simp [signals, signal?] at nested
  | absent _ absent => simp [any_isAbsent.mpr absent, isAbsent]
  | rejected _ present rejection =>
    rw [← any_isAbsent, Bool.not_eq_true] at present
    have rejects := List.find?_some rejection
    -- No error counts beside a rejection.
    simp [present, isAbsent, cause?, rejection, rejects]
  | @failed cause _ present noRejection first =>
    rw [← any_isAbsent, Bool.not_eq_true] at present
    obtain ⟨others, came⟩ := List.head?_eq_some_iff.mp first
    have none : (causes inner).find? (·.isRejection) = none := by simpa using noRejection
    have other := noRejection cause (came ▸ List.mem_cons_self)
    have error : (causes inner).find? (!·.isRejection) = some cause := by simp [came, other]
    simp [present, isAbsent, cause?, none, error, other]

/-- What an alternation makes of its members tells as much of them as they would themselves. -/
theorem sum_nested (name own : String) {inner : List Outcome} (nonempty : inner ≠ [])
    (valueless : ∀ outcome ∈ inner, ∀ value, outcome ≠ .ok (some value))
    (before behind : List Outcome) :
    Outcomes Failure.SameCause Eq
      ((sum (before ++ (sum inner).outcome own :: behind)).outcome name)
      ((sum (before ++ inner ++ behind)).outcome name) := by
  have collapsed := precedence_sum own nonempty valueless
  generalize (sum inner).outcome own = outcome at collapsed
  have nested : signals (before ++ outcome :: behind) =
      signals before ++ (signals [outcome] ++ signals behind) := by
    rw [signals_append, ← signals_append [outcome], List.singleton_append]
  have flat : signals (before ++ inner ++ behind) =
      signals before ++ (signals inner ++ signals behind) := by
    rw [signals_append, signals_append, List.append_assoc]
  -- Whoever waits first stands in front of the nested alternation, among its members or behind it.
  cases first : signals before with
  | cons signal others =>
    rw [first] at nested flat
    exact sameCause_of_signals name nested flat rfl
  | nil =>
    rw [first, List.nil_append] at nested flat
    rcases collapsed.signals_cases with
      ⟨decided, quiet⟩ | ⟨signal, others, sent, waits, waits', same⟩
    · rw [quiet, List.nil_append] at nested
      rw [decided, List.nil_append] at flat
      cases last : signals behind with
      | cons signal others =>
        exact sameCause_of_signals name (nested.trans last) (flat.trans last) rfl
      | nil =>
        rw [sum_nested_decided name collapsed before behind (nested.trans last) (flat.trans last)]
        exact .refl .refl (fun _ => rfl) _
    · rw [waits'] at nested
      rw [waits] at flat
      exact sameCause_of_signals name nested flat same

end Tally

namespace Reading

theorem inTurn_append (start : Cursor) (readers more : List Reader) (context : Context) :
    inTurn start (readers ++ more) context =
      inTurn start readers context ++ inTurn start more (leftBy start readers context) := by
  induction readers generalizing context with
  | nil => rfl
  | cons reader rest ih => exact congrArg _ (ih _)

theorem leftBy_append (start : Cursor) (readers more : List Reader) (context : Context) :
    leftBy start (readers ++ more) context = leftBy start more (leftBy start readers context) :=
  List.foldl_append

theorem sameBut_of_found (mode : Mode) (name : String) {own : String} {start : Cursor}
    {readers readers' : List Reader} {context : Context} (chosen chosen' : Reading)
    (found : (inTurn start readers context).find? (·.value?.isSome) = some chosen)
    (found' : (inTurn start readers' context).find? (·.value?.isSome) = some chosen')
    (same : Attempt.SameBut own chosen chosen') :
    Attempt.SameBut own (firstOf mode name readers context start)
      (firstOf mode name readers' context start) :=
  (same.kept mode name).of_silent (silent_firstOf_of_found mode name found)
    (silent_firstOf_of_found mode name found')

section

variable (mode : Mode) (name : String) {own : String} {start : Cursor} {inner : Reader}
  {before members behind : List Reader}

/-- Where neither those in front nor the members have a value, both go on from the same context, and
without one behind them either, what they came to is told by the tally. -/
theorem sameBut_nested_of_valueless (nonempty : members ≠ []) {context middle : Context}
    (reached : leftBy start before context = middle)
    (same : Attempt.silent (inner middle start) =
      Attempt.silent (firstOf mode own members middle start))
    (first : (inTurn start before context).find? (·.value?.isSome) = none)
    (second : (inTurn start members middle).find? (·.value?.isSome) = none) :
    Attempt.SameBut own (firstOf mode name (before ++ inner :: behind) context start)
      (firstOf mode name (before ++ members ++ behind) context start) := by
  obtain ⟨outcome, left, -⟩ := firstOf_of_valueless mode own second
  obtain ⟨outcome', left', -⟩ := Attempt.eq_of_silent same
  have nothing : (inner middle start).value? = none := by
    rw [Option.eq_none_iff_forall_ne_some]
    intro value came
    rw [Attempt.value?_eq_some, outcome', outcome] at came
    exact Tally.outcome_ne_some _ own value came
  have others : (inner middle start).context = leftBy start members middle :=
    left'.trans left
  cases third : (inTurn start behind (leftBy start members middle)).find? (·.value?.isSome) with
  | some chosen =>
    refine sameBut_of_found mode name chosen chosen ?_ ?_ (.of_eq rfl)
    · simp [inTurn_append, inTurn, first, reached, nothing, others, third]
    · simp [inTurn_append, first, reached, second, third]
  | none =>
    have quiet : (inTurn start (before ++ inner :: behind) context).find?
        (·.value?.isSome) = none := by
      simp [inTurn_append, inTurn, first, reached, nothing, others, third]
    have quiet' : (inTurn start (before ++ members ++ behind) context).find?
        (·.value?.isSome) = none := by
      simp [inTurn_append, first, reached, second, third]
    obtain ⟨ends, leaves, back⟩ := firstOf_of_valueless mode name quiet
    obtain ⟨ends', leaves', back'⟩ := firstOf_of_valueless mode name quiet'
    refine ⟨?_, ?_, back.trans back'.symm⟩
    -- The tally of the inner alternation has become one outcome among the others.
    · have collapsed := Tally.sum_nested name own (inTurn_ne_nil nonempty start middle)
        (valueless_of_find? second) ((inTurn start before context).map (·.outcome))
        ((inTurn start behind (leftBy start members middle)).map (·.outcome))
      rw [← outcome, ← outcome'] at collapsed
      rw [ends, ends']
      simpa [inTurn_append, inTurn, reached, others] using collapsed
    · rw [leaves, leaves', leftBy_append, leftBy_append, leftBy_append, reached]
      show Sight.Contexts _ (leftBy start behind (inner middle start).context) _
      rw [others]
      rfl

theorem sameBut_nested (nonempty : members ≠ [])
    (nested : ∀ context, Attempt.silent (inner context start) =
      Attempt.silent (firstOf mode own members context start)) (context : Context) :
    Attempt.SameBut own (firstOf mode name (before ++ inner :: behind) context start)
      (firstOf mode name (before ++ members ++ behind) context start) := by
  have same := nested (leftBy start before context)
  generalize reached : leftBy start before context = middle at same
  cases first : (inTurn start before context).find? (·.value?.isSome) with
  | some chosen =>
    refine sameBut_of_found mode name chosen chosen ?_ ?_ (.of_eq rfl)
    · simp [inTurn_append, first]
    · simp [inTurn_append, first]
  | none =>
    cases second : (inTurn start members middle).find? (·.value?.isSome) with
    | some chosen =>
      have told := same.trans (silent_firstOf_of_found mode own second)
      have value : (inner middle start).value?.isSome = true := by
        have chosen := List.find?_some second
        rwa [Attempt.value?, (Attempt.eq_of_silent told).1, outcome_kept, ← Attempt.value?]
      -- The inner alternation has stored the value under its own name as well.
      refine sameBut_of_found mode name (inner middle start) chosen ?_ ?_
        ((Attempt.SameBut.kept_self chosen mode own).of_silent told rfl)
      · simp [inTurn_append, inTurn, first, reached, value]
      · simp [inTurn_append, first, reached, second]
    | none => exact sameBut_nested_of_valueless mode name nonempty reached same first second

end

end Reading

namespace Argument

variable {σ : Type}

theorem awaited_eq_nil {input : Input σ} {mode : Mode} {label : Label} {members : List (Argument σ)}
    {style : AlternationStyle} (nonempty : members ≠ []) {context : Context} {cursor : Cursor}
    (decided : signal? ((firstOf label members style).read input mode context cursor).outcome =
      none)
    (nothing : ((firstOf label members style).read input mode context cursor).value? = none)
    (parsingFailed : Bool) : awaited input mode context cursor parsingFailed members = [] := by
  have told := tieBreak_read input mode label style nonempty context cursor
  have noneFound : (members.map (·.read input mode context cursor)).find? (·.value?.isSome) =
      none := by
    rw [← Option.not_isSome_iff_eq_none, told.isSome_find?, nothing]
    exact Bool.false_ne_true
  obtain ⟨precedence, -, -⟩ := told.otherwise noneFound
  rcases precedence.signals_cases with ⟨none, -⟩ | ⟨_, _, _, -, waits, -⟩
  · rw [signals, List.filterMap_eq_nil_iff] at none
    refine List.filterMap_eq_nil_iff.mpr fun member inside => ?_
    rw [none _ (List.mem_map_of_mem (List.mem_map_of_mem inside))]
    rfl
  · simp [signals, decided] at waits

/-- Resolving the one is like resolving the other, where both wait. -/
theorem sameBut_resolve {input : Input σ} {mode : Mode} {label own : Label}
    {style style' : AlternationStyle} {before members behind : List (Argument σ)}
    (nonempty : members ≠ []) {context : Context} {cursor : Cursor} {signal signal' : Signal}
    (sent : ((firstOf label (before ++ firstOf own members style' :: behind) style).read input mode
      context cursor).outcome = .error (.deferred signal))
    (sent' : ((firstOf label (before ++ members ++ behind) style).read input mode
      context cursor).outcome = .error (.deferred signal'))
    (context' : Context) (cursor' : Cursor) (parsingFailed : Bool) :
    Attempt.SameBut own.name
      (((firstOf label (before ++ firstOf own members style' :: behind) style).resolve input
        context' cursor' signal parsingFailed).mapError .error)
      (((firstOf label (before ++ members ++ behind) style).resolve input context' cursor' signal'
        parsingFailed).mapError .error) := by
  have tried : before ++ firstOf own members style' :: behind ≠ [] := by simp
  have tried' : before ++ members ++ behind ≠ [] := by simp [nonempty]
  obtain ⟨-, same⟩ := silent_resolve tried sent context' cursor' parsingFailed
  obtain ⟨-, same'⟩ := silent_resolve tried' sent' context' cursor' parsingFailed
  refine .of_silent ?_ same same'
  unfold awaited
  rw [List.filterMap_append, List.filterMap_append, List.filterMap_append, List.filterMap_cons]
  cases waits : signal? ((firstOf own members style').read input mode context cursor).outcome with
  | none =>
    -- The outer alternation waits, so the inner one has no value either, and lists nobody.
    have told := tieBreak_read input mode label style tried context cursor
    have nothing := List.find?_eq_none.mp (told.valueless sent)
      ((firstOf own members style').read input mode context cursor) (by simp)
    have nobody := awaited_eq_nil nonempty waits (by simpa using nothing) parsingFailed
    unfold awaited at nobody
    rw [nobody, List.append_nil]
    exact .of_eq rfl
  | some inner =>
    have inside := signal?_eq_some.mp waits
    obtain ⟨asked, -⟩ := silent_resolve nonempty inside context' cursor' parsingFailed
    exact Reading.sameBut_nested .storing label.name asked
      (fun context' => (silent_resolve nonempty inside context' cursor' parsingFailed).2) context'

/-- The members of an alternation among the alternatives of another might as well be alternatives
themselves. Before any token is read the two look the same; reading comes to the same value,
absence or error, or puts off for the same cause, and resolving what was put off comes to the same
in the end. Only what is stored under the name of the inner alternation differs. -/
theorem firstOf_flattens (input : Input σ) (label own : Label) (xs : List (Argument σ))
    {ys : List (Argument σ)} (nonempty : ys ≠ []) (zs : List (Argument σ)) :
    let nested := firstOf label (xs ++ [firstOf own ys .listed] ++ zs) .listed
    let flat := firstOf label (xs ++ ys ++ zs) .listed
    nested.isOptional = flat.isOptional ∧ nested.isFallback = flat.isFallback ∧
      nested.reduced = flat.reduced ∧
      ∀ mode context cursor,
        let reading := nested.read input mode context cursor
        let reading' := flat.read input mode context cursor
        Outcomes Failure.SameCause Eq reading.outcome reading'.outcome ∧
          reading.cursor = reading'.cursor ∧
          (Sight.except own.name).Contexts reading.context reading'.context ∧
          ∀ signal signal', reading.outcome = .error (.deferred signal) →
            reading'.outcome = .error (.deferred signal') →
            ∀ context cursor parsingFailed,
              let resolution := nested.resolve input context cursor signal parsingFailed
              let resolution' := flat.resolve input context cursor signal' parsingFailed
              resolution.outcome = resolution'.outcome ∧
                resolution.cursor = resolution'.cursor ∧
                (Sight.except own.name).Contexts resolution.context resolution'.context := by
  rw [List.append_assoc, List.singleton_append]
  intro nested flat
  refine ⟨?_, ?_, ?_, ?_⟩
  · simp [nested, flat, isOptional, info, Info.firstOf, infos_eq_map]
  · simp [nested, flat, isFallback, info, Info.firstOf, infos_eq_map]
  · simp [nested, flat, reduced, info, Info.firstOf, infos_eq_map, Usage.joined_joined]
  · intro mode context cursor reading reading'
    have same : Attempt.SameBut own.name reading reading' := by
      simp only [reading, reading', nested, flat, read, readers_eq_map, List.map_append,
        List.map_cons]
      exact Reading.sameBut_nested mode label.name (by simpa using nonempty) (fun _ => rfl) context
    refine ⟨same.outcome, same.cursor, same.context, ?_⟩
    intro signal signal' sent sent' context' cursor' parsingFailed
    exact (sameBut_resolve nonempty sent sent' context' cursor' parsingFailed).resolved

/-- The signal takes another way, and the context keeps one entry more. -/
theorem firstOf_flattens_fares :
    let keyword : Argument Unit := .literal "none" "none"
    let nested := firstOf ⟨"price", none⟩ ([keyword] ++ [firstOf ⟨"fare", none⟩ fares .listed] ++ [])
      .listed
    let flat := firstOf ⟨"price", none⟩ ([keyword] ++ fares ++ []) .listed
    let coins := Signal.raised "coins" (.invalid "coins" "x" none)
    let pass := Signal.raised "pass" (.invalid "pass" "x" none)
    let signal := Signal.branched "price" 1 (.branched "fare" 1 coins [(2, pass)]) []
    let signal' := Signal.branched "price" 2 coins [(3, pass)]
    let resolution := nested.resolve ⟨(), 20⟩ .empty (.ofList []) signal false
    let resolution' := flat.resolve ⟨(), 20⟩ .empty (.ofList []) signal' false
    fares ≠ [] ∧ resolution.context.names = ["coins", "fare", "price"] ∧
      resolution'.context.names = ["coins", "price"] ∧ resolution.outcome = resolution'.outcome ∧
      resolution.cursor = resolution'.cursor ∧
      (Sight.except "fare").Contexts resolution.context resolution'.context :=
  have members : fares ≠ [] := nofun
  have law := firstOf_flattens ⟨(), 20⟩ ⟨"price", none⟩ ⟨"fare", none⟩ [.literal "none" "none"]
    members []
  ⟨members, rfl, rfl, (law.2.2.2 .storing .empty (.ofList ["x"])).2.2.2 _ _ rfl rfl .empty
    (.ofList []) false⟩

end Argument

end CommandLine
