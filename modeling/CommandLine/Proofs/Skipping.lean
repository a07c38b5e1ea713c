import CommandLine.Proofs.Choice
import CommandLine.Proofs.Coverage
import Mathlib.Data.List.Forall2

/-! Defaults that stand in for what was not typed.

An argument with a default, of its own or looked up, puts off what it cannot
read. If the others read on from where it stands and leave no token, nobody
takes a token while deferrals are resolved: the whole comes to what the eager
run without the waiting arguments stored, with their defaults added. A default
that is not needed makes no difference.
-/

set_option autoImplicit false

namespace CommandLine

variable {σ : Type}

namespace Argument

def original : Argument σ → Argument σ
  | .fallback primary _ => primary
  | argument => argument

def producer? : Argument σ → Option (Argument σ)
  | .fallback _ producer => some producer
  | _ => none

def occupied : Argument σ → List String
  | .fallback primary _ => primary.name :: primary.stored
  | argument => argument.stored

/-- A value is at hand where `primary` cannot be read. -/
inductive Adapts (primary : Argument σ) : Argument σ → Prop where
  | default (value : Value) : Adapts primary (primary.orDefault value)
  | invoker (kind : String) (project : σ → Option Value) :
    Adapts primary (primary.orInvoker kind project)
  | targeted (lookup : Input σ → Context → Except ArgumentError Value) :
    Adapts primary (primary.orTargeted lookup)

/-- The argument decides at once, or has one default over an argument that does. -/
inductive Simple : Argument σ → Prop where
  | steady {argument : Argument σ} (decides : argument.isFallback = false) : Simple argument
  | adapted {primary argument : Argument σ} (decides : primary.isFallback = false)
      (adapts : primary.Adapts argument) : Simple argument

end Argument

/-- A place where the argument `name` could not be read and was left to its producer. -/
structure Skip (σ : Type) where
  name : String
  producer : Argument σ
  context : Context
  cursor : Cursor

def Skip.Yields (skip : Skip σ) (input : Input σ) (value : Value) : Prop :=
  (skip.producer.read input .viewing skip.context skip.cursor).outcome = .ok (some value)

structure Skim (σ : Type) where
  skipped : List (Skip σ)
  context : Context
  cursor : Cursor

def Skim.behind (eager : Skim σ) (skip : Skip σ) : Skim σ :=
  { eager with skipped := skip :: eager.skipped }

namespace Argument

/-- Reads arguments in order, and goes on from the same place where one fails that has a
producer. -/
def skim (input : Input σ) : List (Argument σ) → Context → Cursor → Option (Skim σ)
  | [], context, cursor => some ⟨[], context, cursor⟩
  | argument :: rest, context, cursor =>
    let reading := argument.original.read input .storing context cursor
    match reading.outcome, argument.producer? with
    | .ok _, _ => skim input rest reading.context reading.cursor
    | .error _, none => none
    | .error _, some producer =>
      (skim input rest context cursor).map (·.behind ⟨argument.name, producer, context, cursor⟩)

section

variable {input : Input σ} {argument primary : Argument σ} {rest : List (Argument σ)}
  {context : Context} {cursor : Cursor} {eager : Skim σ}

theorem skim_cons_cases (h : skim input (argument :: rest) context cursor = some eager) :
    (∃ value, (argument.original.read input .storing context cursor).outcome = .ok value ∧
      skim input rest (argument.original.read input .storing context cursor).context
        (argument.original.read input .storing context cursor).cursor = some eager) ∨
    ∃ failure producer onward,
      (argument.original.read input .storing context cursor).outcome = .error failure ∧
      argument.producer? = some producer ∧ skim input rest context cursor = some onward ∧
      eager = onward.behind ⟨argument.name, producer, context, cursor⟩ := by
  unfold skim at h
  dsimp only at h
  split at h
  next value came => exact .inl ⟨value, came, h⟩
  next => cases h
  next failure producer came own =>
    obtain ⟨onward, others, rfl⟩ := Option.map_eq_some_iff.mp h
    exact .inr ⟨failure, producer, onward, came, own, others, rfl⟩

theorem original_of_steady (decides : argument.isFallback = false) :
    argument.original = argument ∧ argument.producer? = none ∧
      argument.occupied = argument.stored := by
  cases argument with
  | fallback => cases decides
  | _ => exact ⟨rfl, rfl, rfl⟩

theorem Adapts.exists_producer (h : primary.Adapts argument) :
    ∃ producer, argument = .fallback primary producer ∧
      ∀ (input : Input σ) (context : Context) (cursor start : Cursor),
        (producer.read input .viewing context start).outcome =
          (producer.read input .viewing context cursor).outcome := by
  have blind (result : Except ArgumentError Value) (context : Context) (cursor start : Cursor) :
      (Reading.produced result context start).outcome =
        (Reading.produced result context cursor).outcome := by
    cases result <;> rfl
  cases h with
  | default => exact ⟨_, rfl, fun _ _ _ _ => rfl⟩
  | invoker => exact ⟨_, rfl, fun _ => blind _⟩
  | targeted => exact ⟨_, rfl, fun _ context => blind _ context⟩

theorem read_of_original {value : Option Value}
    (came : (argument.original.read input .storing context cursor).outcome = .ok value) :
    argument.read input .storing context cursor =
      argument.original.read input .storing context cursor := by
  cases argument with
  | fallback primary producer =>
    change (primary.read input .storing context cursor).outcome = _ at came
    show (primary.read input .storing context cursor).postponed primary.name = _
    simp only [Reading.postponed, came]
    rfl
  | _ => rfl

theorem stored_original_subset (argument : Argument σ) :
    ∀ name ∈ argument.original.stored, name ∈ argument.occupied := by
  cases argument with
  | fallback => exact fun name inside => List.mem_cons_of_mem _ inside
  | _ => exact fun _ => id

theorem name_mem_occupied {producer : Argument σ} (own : argument.producer? = some producer) :
    argument.name ∈ argument.occupied := by
  cases argument with
  | fallback => exact List.mem_cons_self
  | _ => cases own

theorem storedUnder_read_original (input : Input σ) (argument : Argument σ)
    (rest : List (Argument σ)) (context : Context) (cursor : Cursor) :
    context.StoredUnder ((argument :: rest).flatMap occupied)
      (argument.original.read input .storing context cursor).context := by
  refine (backtracks_read input .storing argument.original context cursor).stores.mono ?_
  intro name inside
  exact List.mem_append_left _ (stored_original_subset argument name inside)

theorem storedUnder_skim {arguments : List (Argument σ)}
    (run : skim input arguments context cursor = some eager) :
    context.StoredUnder (arguments.flatMap occupied) eager.context := by
  induction arguments generalizing context cursor eager with
  | nil =>
    cases run
    exact .refl ..
  | cons argument rest ih =>
    have behind : ∀ name ∈ rest.flatMap occupied, name ∈ (argument :: rest).flatMap occupied :=
      fun name inside => List.mem_append_right _ inside
    rcases skim_cons_cases run with ⟨_, -, others⟩ | ⟨_, _, onward, -, -, others, rfl⟩
    · exact (storedUnder_read_original ..).trans ((ih others).mono behind)
    · exact (ih others).mono behind

theorem name_mem_of_skim {arguments : List (Argument σ)}
    (run : skim input arguments context cursor = some eager) :
    ∀ skip ∈ eager.skipped, skip.name ∈ arguments.flatMap occupied := by
  induction arguments generalizing context cursor eager with
  | nil =>
    cases run
    exact nofun
  | cons argument rest ih =>
    rcases skim_cons_cases run with ⟨_, -, others⟩ | ⟨_, _, onward, -, own, others, rfl⟩
    · exact fun skip inside => List.mem_append_right _ (ih others skip inside)
    · refine List.forall_mem_cons.mpr ⟨List.mem_append_left _ (name_mem_occupied own), ?_⟩
      exact fun skip inside => List.mem_append_right _ (ih others skip inside)

def Apart (arguments : List (Argument σ)) : Prop :=
  arguments.Pairwise fun first second => ∀ name ∈ first.occupied, name ∉ second.occupied

theorem Apart.not_mem (h : Apart (argument :: rest)) {name : String}
    (inside : name ∈ argument.occupied) : name ∉ rest.flatMap occupied := by
  rw [List.mem_flatMap]
  rintro ⟨other, member, shared⟩
  exact List.rel_of_pairwise_cons h member name inside shared

theorem Apart.clear_read (h : Apart (argument :: rest))
    (clear : ∀ name ∈ (argument :: rest).flatMap occupied, context.get? name = none) :
    ∀ name ∈ rest.flatMap occupied,
      (argument.original.read input .storing context cursor).context.get? name = none := by
  intro name inside
  have stores := (backtracks_read input .storing argument.original context cursor).stores
  have foreign : name ∉ argument.original.stored :=
    fun own => h.not_mem (stored_original_subset argument name own) inside
  rw [stores.apart name foreign]
  exact clear name (List.mem_append_right _ inside)

end

end Argument

/-- The exploration came to what the eager run did, with the values of the producers added. -/
structure Skim.Completes (eager : Skim σ) (input : Input σ) (exploration : Exploration) : Prop where
  ending : exploration.ending = .reached
  cursor : exploration.cursor = eager.cursor
  skipped : ∀ skip ∈ eager.skipped, ∀ value, skip.Yields input value →
    exploration.context.get? skip.name = some value
  others : ∀ name ∉ eager.skipped.map (·.name),
    exploration.context.get? name = eager.context.get? name

/-- Nobody behind a skipped argument stores under its name, so that its value stays in the merged
context, which holds under any other name what came later. -/
theorem Skim.Completes.behind {onward : Skim σ} {input : Input σ} {skipping : Exploration}
    {skip : Skip σ} {value : Value} {names : List String} (h : onward.Completes input skipping)
    (yielded : skip.Yields input value) (clear : skip.context.get? skip.name = none)
    (stored : skip.context.StoredUnder names onward.context)
    (named : ∀ other ∈ onward.skipped, other.name ∈ names) (apart : skip.name ∉ names)
    (visits : List Visit) :
    (onward.behind skip).Completes input
      ⟨.reached, (skip.context.put skip.name value).merge skipping.context, skipping.cursor,
        visits⟩ := by
  refine ⟨rfl, h.cursor, List.forall_mem_cons.mpr ⟨fun other again => ?_, ?_⟩, ?_⟩
  · have fresh : skip.name ∉ onward.skipped.map (·.name) := by
      rw [List.mem_map]
      rintro ⟨other, inside, same⟩
      exact apart (same ▸ named other inside)
    have absent : skipping.context.get? skip.name = none := by
      rw [h.others _ fresh, stored.apart _ apart, clear]
    have same : some value = some other := Except.ok.inj (yielded.symm.trans again)
    rw [Table.get?_merge, absent, Option.none_or, Table.get?_put_self, same]
  · intro other inside held yields
    rw [Table.get?_merge, h.skipped other inside held yields, Option.some_or]
  · intro name outside
    rw [Skim.behind, List.map_cons, List.mem_cons, not_or] at outside
    have merged := congrArg (·.get? name) stored.merge_eq
    rw [Table.get?_merge] at merged
    rw [Table.get?_merge, h.others name outside.2, Table.get?_put_of_ne outside.1]
    exact merged

namespace Argument

section

variable {input : Input σ} {primary producer : Argument σ} {context : Context}
  {cursor start : Cursor} {value : Value}

theorem resolve_of_yields (primary : Argument σ)
    (yields : (producer.read input .viewing context start).outcome = .ok (some value))
    (cause : ArgumentError) (parsingFailed : Bool) :
    let answer := (fallback primary producer).resolve input context start
      (.raised primary.name cause) parsingFailed
    answer.outcome = .ok (some value) ∧ answer.context = context.put primary.name value := by
  intro answer
  have produced : answer = Resolution.produce primary.name (producer.read input .viewing)
      (primary.read input .storing) context start (.raised primary.name cause)
        parsingFailed := rfl
  rw [produced]
  simp only [Resolution.produce, yields, context_read_viewing, and_self]

theorem explore_of_yields (decides : primary.isFallback = false) {failure : Failure}
    (came : (primary.read input .storing context cursor).outcome = .error failure)
    {rest : List Step} {index : Nat} {skipping : Exploration}
    (others : explore (index + 1) rest context cursor = skipping)
    (reached : skipping.ending = .reached) (done : skipping.cursor.hasNext = false)
    (yields : (producer.read input .viewing context skipping.cursor).outcome = .ok (some value)) :
    ∃ visits, explore index ((fallback primary producer).step input :: rest) context cursor =
      ⟨.reached, (context.put primary.name value).merge skipping.context, skipping.cursor,
        visits⟩ := by
  -- An argument that was passed over stores what is at hand, if the others left no token.
  cases failure with
  | deferred signal => exact absurd came (decided_read input decides .storing context cursor signal)
  | error cause =>
    let step := (fallback primary producer).step input
    have sent : (step.read context cursor).outcome =
        .error (.deferred (.raised primary.name cause)) := outcome_read_fallback came producer
    have stays : (step.read context cursor).context = context :=
      (backtracks_read input .storing (fallback primary producer) context cursor).failed _ sent
    have right : skipping.wentWrong = false := by
      rw [Exploration.wentWrong, reached, done]
      rfl
    have start : skipping.start cursor = skipping.cursor := Exploration.start_of_right right
    have answer : step.answer context cursor (.raised primary.name cause) skipping =
        (fallback primary producer).resolve input context skipping.cursor
          (.raised primary.name cause) false := by
      rw [Step.answer, stays, start, right]
      rfl
    obtain ⟨outcome, stored⟩ := resolve_of_yields primary yields cause false
    have verdict : step.verdict context cursor (.raised primary.name cause) skipping =
        .ok (some value) := by
      rw [Step.verdict, answer, start, Visit.leavesInput, done]
      exact outcome
    have consumes : step.consumes context cursor (.raised primary.name cause) skipping = false := by
      refine Bool.eq_false_iff.mpr fun takes => ?_
      have wrong := (advances_step input (fallback primary producer)).wentWrong_of_consumes takes
      exact absurd (right.symm.trans wrong) Bool.noConfusion
    have passed : Passed step context cursor (.raised primary.name cause) skipping :=
      ⟨sent, by rw [reached]; rfl⟩
    rw [explore_of_sent passed (stays.symm ▸ others), verdict, consumes, answer, stored, reached]
    exact ⟨_, rfl⟩

end

theorem completes_skim {input : Input σ} {arguments : List (Argument σ)} {context : Context}
    {cursor : Cursor} {eager : Skim σ} (simple : ∀ argument ∈ arguments, argument.Simple)
    (apart : Apart arguments)
    (clear : ∀ name ∈ arguments.flatMap occupied, context.get? name = none)
    (run : skim input arguments context cursor = some eager) (done : eager.cursor.hasNext = false)
    (yields : ∀ skip ∈ eager.skipped, ∃ value, skip.Yields input value) (index : Nat) :
    eager.Completes input (explore index (arguments.map (·.step input)) context cursor) := by
  -- Whoever is passed over is resolved behind the last token.
  induction arguments generalizing context cursor eager index with
  | nil =>
    cases run
    exact ⟨rfl, rfl, nofun, fun _ _ => rfl⟩
  | cons argument rest ih =>
    obtain ⟨head, behind⟩ := List.forall_mem_cons.mp simple
    have later := (List.pairwise_cons.mp apart).2
    rcases skim_cons_cases run with
      ⟨value, came, others⟩ | ⟨failure, _, onward, came, own, others, rfl⟩
    · have read := ih behind later (apart.clear_read clear) others done yields (index + 1)
      have same := read_of_original came
      rw [← same] at came read
      rw [List.map_cons, explore_of_read came]
      exact ⟨read.ending, read.cursor, read.skipped, read.others⟩
    · cases head with
      | steady decides => cases own.symm.trans (original_of_steady decides).2.1
      | @adapted primary _ decides adapts =>
        obtain ⟨producer, rfl, blind⟩ := adapts.exists_producer
        cases own
        obtain ⟨⟨value, yielded⟩, ofOthers⟩ := List.forall_mem_cons.mp yields
        have clearBehind : ∀ name ∈ rest.flatMap occupied, context.get? name = none :=
          fun name inside => clear name (List.mem_append_right _ inside)
        have held := ih behind later clearBehind others done ofOthers (index + 1)
        obtain ⟨visits, whole⟩ := explore_of_yields decides came rfl held.ending
          (held.cursor ▸ done) ((blind ..).trans yielded)
        rw [List.map_cons, whole]
        exact held.behind yielded (clear _ List.mem_cons_self) (storedUnder_skim others)
          (name_mem_of_skim others) (apart.not_mem List.mem_cons_self) visits

def MayAdapt (primary argument : Argument σ) : Prop :=
  argument = primary ∨ primary.Adapts argument

theorem MayAdapt.name_eq {primary argument : Argument σ} (h : primary.MayAdapt argument) :
    argument.name = primary.name := by
  rcases h with rfl | adapts
  · rfl
  · obtain ⟨producer, rfl, -⟩ := adapts.exists_producer
    rfl

theorem MayAdapt.read_eq {input : Input σ} {primary argument : Argument σ}
    (h : primary.MayAdapt argument) {context : Context} {cursor : Cursor} {value : Option Value}
    (came : (primary.read input .storing context cursor).outcome = .ok value) :
    argument.read input .storing context cursor = primary.read input .storing context cursor := by
  rcases h with rfl | adapts
  · rfl
  · obtain ⟨producer, rfl, -⟩ := adapts.exists_producer
    exact read_of_original came

/-- Where the plain arguments are read to the end, no default is needed. -/
theorem explore_of_mayAdapt {input : Input σ} {plain arguments : List (Argument σ)}
    (adapted : List.Forall₂ MayAdapt plain arguments) {context : Context} {cursor : Cursor}
    (done : (readAll input plain context cursor).outcome = .ok ()) (index : Nat)
    (decides : ∀ argument ∈ plain, argument.isFallback = false) :
    explore index (arguments.map (·.step input)) context cursor =
      explore index (plain.map (·.step input)) context cursor := by
  induction adapted generalizing context cursor index with
  | nil => rfl
  | @cons primary argument plain arguments head _ ih =>
    obtain ⟨first, others⟩ := List.forall_mem_cons.mp decides
    cases came : (primary.read input .storing context cursor).outcome with
    | ok value =>
      have same : (argument.step input).read context cursor =
          (primary.step input).read context cursor := head.read_eq came
      have ofPlain : ((primary.step input).read context cursor).outcome = .ok value := came
      have visit : (argument.step input).visit index context cursor =
          (primary.step input).visit index context cursor := by
        rw [Step.visit, same]
        exact congrArg (Visit.read index · ..) head.name_eq
      rw [readAll_of_read came] at done
      rw [List.map_cons, List.map_cons, explore_of_read ofPlain,
        explore_of_read ((congrArg (·.outcome) same).trans ofPlain), visit, same]
      exact congrArg (Exploration.after · _) (ih done (index + 1) others)
    | error failure =>
      cases failure with
      | deferred signal =>
        exact absurd came (decided_read input first .storing context cursor signal)
      | error cause =>
        rw [outcome_readAll_of_failed came] at done
        cases done

end Argument

namespace Command

open Argument (skim Simple Apart MayAdapt readAll explore_all_cases)

variable {command : Command σ} {input : Input σ}

/-- If the eager run, which leaves each default whose argument fails for later, reads all tokens and
a value is at hand wherever it was left out, the command is read. It comes to these values and to
what the eager run stored. So a default makes no difference where the command without it is read. -/
theorem parse_skips_defaults (command : Command σ) (input : Input σ) (cursor : Cursor) :
    (∀ eager, (∀ argument ∈ command.arguments, argument.Simple) → Apart command.arguments →
      skim input command.arguments .empty cursor = some eager → eager.cursor.hasNext = false →
      (∀ skip ∈ eager.skipped, ∃ value, skip.Yields input value) →
        ∃ context, (command.parse input cursor).result = .ok context ∧
          (∀ skip ∈ eager.skipped, ∀ value, skip.Yields input value →
            context.get? skip.name = some value) ∧
          ∀ name ∉ eager.skipped.map (·.name), context.get? name = eager.context.get? name) ∧
      ∀ (plain : Command σ) context, (∀ argument ∈ plain.arguments, argument.isFallback = false) →
        List.Forall₂ MayAdapt plain.arguments command.arguments →
          (plain.parse input cursor).result = .ok context →
            (command.parse input cursor).result = .ok context := by
  constructor
  · intro eager simple apart run done yields
    have held := Argument.completes_skim simple apart (fun _ _ => rfl) run done yields 0
    refine ⟨_, ?_, held.skipped, held.others⟩
    exact settle_of_done (by rw [held.ending]; rfl) (held.cursor ▸ done)
  · intro plain context decides adapted parsed
    obtain ⟨unfailed, came⟩ := unfailed_of_result parsed
    rcases explore_all_cases input decides 0 .empty cursor with ⟨_, -, ending⟩ | ⟨read, -⟩
    · rw [ending] at unfailed
      cases unfailed
    · have same := Argument.explore_of_mayAdapt adapted read 0 decides
      rw [result_parse, same, settle_of_done unfailed (hasNext_of_result parsed), came]

def reward : Command Unit where
  arguments :=
    [.literal "verb" "reward",
      .orDefault (.integer ⟨"count", none⟩ ⟨true, 32, false⟩) (.integer ⟨true, 32, false⟩ 1),
      .text ⟨"player", none⟩ false,
      .orTargeted (.integer ⟨"slot", none⟩ ⟨true, 32, false⟩) fun _ context =>
        match context.get? "player" with
        | some player => .ok player
        | none => .error (.missing "player")]
  distinct := by decide

def rewardInFull : Command Unit where
  arguments :=
    [.literal "verb" "reward", .integer ⟨"count", none⟩ ⟨true, 32, false⟩,
      .text ⟨"player", none⟩ false, .integer ⟨"slot", none⟩ ⟨true, 32, false⟩]
  distinct := by decide

theorem parse_reward_skips_defaults :
    (∃ context, (reward.parse ⟨(), 20⟩ (.ofList ["reward", "steve"])).result = .ok context ∧
      context.get? "count" = some (.integer ⟨true, 32, false⟩ 1) ∧
      context.get? "player" = some (.text "steve") ∧ context.get? "slot" = some (.text "steve")) ∧
    ∃ context,
      (reward.parse ⟨(), 20⟩ (.ofList ["reward", "3", "steve", "7"])).result = .ok context ∧
        (rewardInFull.parse ⟨(), 20⟩ (.ofList ["reward", "3", "steve", "7"])).result =
          .ok context := by
  constructor
  · have law := (parse_skips_defaults reward ⟨(), 20⟩ (.ofList ["reward", "steve"])).1
    have simple : ∀ argument ∈ reward.arguments, argument.Simple := by
      simp only [reward, List.forall_mem_cons]
      exact ⟨.steady rfl, .adapted rfl (.default _), .steady rfl, .adapted rfl (.targeted _), nofun⟩
    have apart : Apart reward.arguments := by
      unfold Apart
      decide
    obtain ⟨context, parsed, defaults, others⟩ := law _ simple apart rfl rfl
      (List.forall_mem_cons.mpr ⟨⟨_, rfl⟩, List.forall_mem_singleton.mpr ⟨_, rfl⟩⟩)
    refine ⟨context, parsed, defaults _ List.mem_cons_self _ rfl, others "player" (by decide), ?_⟩
    exact defaults _ (List.mem_cons_of_mem _ List.mem_cons_self) _ rfl
  · have law := (parse_skips_defaults reward ⟨(), 20⟩ (.ofList ["reward", "3", "steve", "7"])).2
    have decides : ∀ argument ∈ rewardInFull.arguments, argument.isFallback = false := by
      decide
    have adapted : List.Forall₂ MayAdapt rewardInFull.arguments reward.arguments :=
      .cons (.inl rfl) (.cons (.inr (.default _)) (.cons (.inl rfl)
        (.cons (.inr (.targeted _)) .nil)))
    exact ⟨_, law rewardInFull _ decides adapted rfl, rfl⟩

end Command

end CommandLine
