import CommandLine.Argument.Build
import CommandLine.Command.Complete
import CommandLine.Proofs.Choice
import CommandLine.Proofs.Mirroring
import CommandLine.Proofs.Replacing

/-! Mapping an argument and giving it a default.

The two commute wherever the argument stands, provided that it decides at once:
the raw default is stored before its image, under the same name, and a signal
with a layer more is answered as the one without.
-/

set_option autoImplicit false

namespace CommandLine

theorem Table.put_put {α : Type} (table : Table α) (name : String) (first second : α) :
    (table.put name first).put name second = table.put name second := by
  refine eq_of_names_of_get? ?_ fun other => ?_
  · rw [names_put, names_put, names_put]
    split <;> simp [*]
  · rw [get?_put, get?_put, get?_put]
    split <;> rfl

theorem Resolution.answered_mapped_default (name : String) (value : Value) (f : Value → Value)
    (again again' : Reader) (cause : ArgumentError) :
    (Signal.wrapped name (.raised name cause)).Answered
      (mapped name (fun raw => .ok (f raw))
        (fallback name none (Reading.produced (.ok value)) again))
      (fallback name none (Reading.produced (.ok (f value))) again') (.raised name cause) where
  rootCause := rfl
  resolve context cursor parsingFailed := by
    simp only [mapped, unwrapped, fallback, produce, Signal.inner?, Reading.produced, Attempt.ok]
    rw [Table.put_put]

variable {σ : Type}

namespace Argument

/-- It does not matter whether a default that decides at once is mapped, or its image is the
default. -/
theorem same_mapped_orDefault {argument : Argument σ} (steady : argument.isFallback = false)
    (value : Value) (f : Value → Value) :
    ((argument.orDefault value).mapped fun raw => .ok (f raw)).Same
      ((argument.mapped fun raw => .ok (f raw)).orDefault (f value)) where
  info := rfl
  read input mode context cursor := by
    have decides := decided_read input steady .viewing context cursor
    have steady' : (argument.mapped fun raw => .ok (f raw)).isFallback = false := steady
    simp only [orDefault, read, resolve, steady, steady', Bool.false_eq_true, if_false]
    generalize argument.read input .viewing context cursor = reading at decides
    obtain ⟨outcome, left, finish, events⟩ := reading
    cases outcome with
    | ok value =>
      cases value with
      | none => cases mode <;> exact .decided (.of_ok rfl)
      | some raw => cases mode <;> exact .decided (.of_ok rfl)
    | error failure =>
      cases failure with
      | deferred signal => exact absurd rfl (decides signal)
      | error cause =>
        -- Only here do the signals differ, by the layer that the mapping adds.
        have answered := Resolution.answered_mapped_default argument.name value f
          (argument.read input .storing)
          ((argument.mapped fun raw => .ok (f raw)).read input .storing) cause
        cases mode <;> exact .deferred answered
  complete input := rfl

end Argument

namespace Exploration

def silent (exploration : Exploration) : Exploration :=
  { exploration with visits := [] }

variable {left right : Exploration}

theorem eq_of_silent (same : left.silent = right.silent) :
    left.ending = right.ending ∧ left.context = right.context ∧ left.cursor = right.cursor := by
  obtain ⟨ending, context, cursor, -⟩ := mk.inj same
  exact ⟨ending, context, cursor⟩

theorem wentWrong_of_silent (same : left.silent = right.silent) :
    left.wentWrong = right.wentWrong := by
  obtain ⟨ending, -, cursor⟩ := eq_of_silent same
  rw [wentWrong, ending, cursor, ← wentWrong]

theorem start_of_silent (same : left.silent = right.silent) (cursor : Cursor) :
    left.start cursor = right.start cursor := by
  rw [start, wentWrong_of_silent same, (eq_of_silent same).2.2, ← start]

end Exploration

namespace Step

variable {step step' : Step} {context : Context} {cursor : Cursor} {signal signal' : Signal}
  {skipping skipping' : Exploration}
  (left : (step.read context cursor).context = (step'.read context cursor).context)
  (answered : signal.Answered step.resolve step'.resolve signal')
  (same : skipping.silent = skipping'.silent)
include left answered same

theorem answer_eq :
    step.answer context cursor signal skipping = step'.answer context cursor signal' skipping' := by
  rw [answer, left, Exploration.start_of_silent same, Exploration.wentWrong_of_silent same,
    answered.resolve, ← answer]

theorem verdict_eq :
    step.verdict context cursor signal skipping =
      step'.verdict context cursor signal' skipping' := by
  rw [verdict, answer_eq left answered same, Exploration.start_of_silent same,
    answered.rootCause, ← verdict]

theorem consumes_eq :
    step.consumes context cursor signal skipping =
      step'.consumes context cursor signal' skipping' := by
  rw [consumes, answer_eq left answered same, Exploration.start_of_silent same, ← consumes]

end Step

theorem silent_explore {input : Input σ} {arguments arguments' : List (Argument σ)}
    (same : List.Forall₂ Argument.Same arguments arguments') (index : Nat) (context : Context)
    (cursor : Cursor) :
    (explore index (arguments.map (·.step input)) context cursor).silent =
      (explore index (arguments'.map (·.step input)) context cursor).silent := by
  induction same generalizing index context cursor with
  | nil => rfl
  | @cons argument argument' rest rest' head tail ih =>
    have read : Reading.Matches (argument.step input).resolve (argument'.step input).resolve
        ((argument.step input).read context cursor) ((argument'.step input).read context cursor) :=
      head.read input .storing context cursor
    rw [List.map_cons, List.map_cons]
    rcases read.outcome_cases with ⟨value, came, came'⟩ | ⟨cause, came, came'⟩ |
      ⟨signal, signal', sent, sent', answered⟩
    · rw [explore_of_read came, explore_of_read came', read.context, read.cursor]
      exact ih ..
    · rw [explore_of_failed came, explore_of_failed came', read.context]
      rfl
    · have others := ih (index + 1) ((argument.step input).read context cursor).context cursor
      nth_rewrite 2 [read.context] at others
      have isEmpty : (rest.map (·.step input)).isEmpty = (rest'.map (·.step input)).isEmpty := by
        cases tail <;> rfl
      obtain ⟨ending, merged, reached⟩ := Exploration.eq_of_silent others
      cases finished : (explore (index + 1) (rest.map (·.step input))
          ((argument.step input).read context cursor).context cursor).ending.isFinished with
      | true =>
        rw [explore_of_dropped sent finished, explore_of_dropped sent' (ending ▸ finished)]
        exact others
      | false =>
        -- Both have skipped the argument alike, and judge its answer alike.
        rw [explore_of_sent ⟨sent, finished⟩ rfl, explore_of_sent ⟨sent', ending ▸ finished⟩ rfl,
          Step.verdict_eq read.context answered others,
          Step.consumes_eq read.context answered others,
          Step.answer_eq read.context answered others, ending, merged, reached,
          Exploration.start_of_silent others, isEmpty]
        split
        · rfl
        · split
          · split
            · rfl
            · exact ih ..
          · rfl

namespace Argument

theorem suggestFrom_eq {input : Input σ} {arguments arguments' : List (Argument σ)}
    (same : List.Forall₂ Same arguments arguments') (context : Context) (cursor : Cursor)
    (found : List String) :
    suggestFrom input arguments context cursor found =
      suggestFrom input arguments' context cursor found := by
  induction same generalizing context cursor found with
  | nil => rfl
  | @cons argument argument' rest rest' head _ ih =>
    have read := head.read input .storing context cursor
    have stops : argument.stops? cursor (argument.read input .storing context cursor) =
        argument'.stops? cursor (argument'.read input .storing context cursor) := by
      have reduced : argument.reduced = argument'.reduced := congrArg Info.reduced head.info
      unfold stops?
      rw [reduced]
      exact read.elim (fun _ => rfl) fun _ => rfl
    unfold suggestFrom
    simp only [stops, read.context, read.cursor, read.events, head.name, head.complete, ih]

end Argument

namespace Command

/-- Whom a token is held against that is left over is known before any token is read. -/
theorem leftover?_eq_of_infos {command other : Command σ}
    (same : command.arguments.map Argument.info = other.arguments.map Argument.info)
    (context : Context) (cursor : Cursor) :
    command.leftover? context cursor = other.leftover? context cursor := by
  have first (command : Command σ) : (command.firstWithoutValue? context).map Argument.info =
      ((command.arguments.map Argument.info).reverse.takeWhile fun info =>
        !context.has info.name).getLast? := by
    rw [← List.map_reverse, List.takeWhile_map, List.getLast?_map]
    rfl
  have blamed := (first command).trans (same ▸ (first other).symm)
  unfold leftover?
  cases cursor.peek with
  | none => rfl
  | some token =>
    cases here : command.firstWithoutValue? context with
    | none =>
      rw [here, Option.map_none, eq_comm, Option.map_eq_none_iff] at blamed
      simp only [blamed]
    | some argument =>
      rw [here, Option.map_some, eq_comm, Option.map_eq_some_iff] at blamed
      obtain ⟨argument', there, infos⟩ := blamed
      simp only [there, Argument.display, infos]

/-- Whether an argument is given a default before or after it is mapped makes no difference to any
command, wherever in it the argument stands. -/
theorem mapped_default_commutes (input : Input σ) {argument : Argument σ}
    (steady : argument.isFallback = false) (value : Value) (f : Value → Value)
    (place : Argument.Place σ) (before behind : List (Argument σ)) {command other : Command σ}
    (first : command.arguments = before ++
      place.fill ((argument.orDefault value).mapped fun raw => .ok (f raw)) :: behind)
    (second : other.arguments = before ++
      place.fill ((argument.mapped fun raw => .ok (f raw)).orDefault (f value)) :: behind) :
    command.usage = other.usage ∧ ∀ cursor,
      (command.parse input cursor).result = (other.parse input cursor).result ∧
        (command.complete input cursor).suggestions =
          (other.complete input cursor).suggestions := by
  have same : List.Forall₂ Argument.Same command.arguments other.arguments := by
    rw [first, second]
    exact ((Argument.same_mapped_orDefault steady value f).fill place).among before behind
  have infos : command.arguments.map Argument.info = other.arguments.map Argument.info := by
    rw [← Argument.infos_eq_map, Argument.Same.infos same, Argument.infos_eq_map]
  refine ⟨?_, fun cursor => ⟨?_, ?_⟩⟩
  · have formats (command : Command σ) : command.arguments.map (·.format) =
        (command.arguments.map Argument.info).map Info.format := by
      rw [List.map_map]
      rfl
    rw [usage, usage, formats, formats, infos]
  · obtain ⟨ending, context, reached⟩ :=
      Exploration.eq_of_silent (silent_explore same 0 .empty cursor)
    rw [result_parse, result_parse, settle, settle, ending, context, reached,
      leftover?_eq_of_infos infos]
  · rw [complete, complete, Argument.suggestFrom_eq same]

def paired : Value → Value
  | .integer kind number => .integer kind (2 * number)
  | value => value

def pairs : Argument Unit :=
  .integer ⟨"pairs", none⟩ ⟨true, 32, false⟩

def take (amount : Argument Unit) : Command Unit where
  arguments :=
    [.text ⟨"item", none⟩ false] ++
      .firstOf ⟨"amount", none⟩ ([.literal "all" "all"] ++ amount :: []) .listed :: []
  distinct := by
    show ["item", "amount"].Nodup
    decide

/-- Without a number it is one pair, which is two of the item. -/
theorem mapped_default_commutes_take :
    let raw := (pairs.orDefault (.integer ⟨true, 32, false⟩ 1)).mapped fun raw => .ok (paired raw)
    let image := (pairs.mapped fun raw => .ok (paired raw)).orDefault (.integer ⟨true, 32, false⟩ 2)
    pairs.isFallback = false ∧ (take raw).usage = (take image).usage ∧
      ((take raw).parse ⟨(), 20⟩ (.ofList ["apple"])).result =
        ((take image).parse ⟨(), 20⟩ (.ofList ["apple"])).result ∧
      ∃ context, ((take raw).parse ⟨(), 20⟩ (.ofList ["apple"])).result = .ok context ∧
        context.get? "amount" = some (.integer ⟨true, 32, false⟩ 2) := by
  intro raw image
  have steady : pairs.isFallback = false := rfl
  have first : (take raw).arguments = [.text ⟨"item", none⟩ false] ++
      Argument.Place.fill raw
        (.alternative ⟨"amount", none⟩ [.literal "all" "all"] .here [] .listed) :: [] := rfl
  have second : (take image).arguments = [.text ⟨"item", none⟩ false] ++
      Argument.Place.fill image
        (.alternative ⟨"amount", none⟩ [.literal "all" "all"] .here [] .listed) :: [] := rfl
  have law := mapped_default_commutes ⟨(), 20⟩ steady (.integer ⟨true, 32, false⟩ 1) paired _ _ _
    first second
  exact ⟨steady, law.1, (law.2 (.ofList ["apple"])).1, _, rfl, rfl⟩

end Command

end CommandLine
