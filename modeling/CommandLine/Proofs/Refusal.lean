import CommandLine.Argument.Build
import CommandLine.Proofs.Resolving

/-! What a resolution leaves behind when it gives no value.

The cursor stays where it was once an argument is absent. The context stays as
well, with one exception: a mapping is asked only after the value that it is
asked about has been stored, and what it refuses is not taken back. The last
such refusal determines the context that is left.
-/

set_option autoImplicit false

namespace CommandLine

/-- Tells, for the arguments of a resolver, with which context the last mapping to refuse a value
was left; there is none if no value was refused. -/
abbrev Refusal := Context → Cursor → Signal → Bool → Option Context

namespace Refusal

def unwrapped (refusal : Refusal) : Refusal :=
  fun context cursor signal parsingFailed =>
    match signal.inner? with
    | none => none
    | some inner => refusal context cursor inner parsingFailed

def named (lead : String) (inner : Refusal) : Refusal :=
  unwrapped fun context cursor signal parsingFailed =>
    match cursor.stripNext? lead with
    | none => none
    | some adjusted => inner context adjusted signal parsingFailed

def mapped (mapping : Value → Except ArgumentError Value) (resolver : Resolver)
    (inner : Refusal) : Refusal :=
  unwrapped fun context cursor signal parsingFailed =>
    let resolution := resolver context cursor signal parsingFailed
    match resolution.outcome with
    | .ok (some value) =>
      match mapping value with
      | .error _ => some resolution.context
      | .ok _ => none
    | _ => inner context cursor signal parsingFailed

/-- Goes through the branches as the alternation does, each of which starts with the context that
those before it left. -/
def firstFrom (start : Cursor) (parsingFailed : Bool) (alternatives : List (Resolver × Refusal)) :
    List (Nat × Signal) → Context → Option Context
  | [], _ => none
  | (index, signal) :: rest, context =>
    match alternatives[index]? with
    | none => firstFrom start parsingFailed alternatives rest context
    | some (resolver, refusal) =>
      let resolution := resolver context start signal parsingFailed
      (firstFrom start parsingFailed alternatives rest resolution.context).or
        (refusal context start signal parsingFailed)

def firstOf (alternatives : List (Resolver × Refusal)) : Refusal :=
  fun context cursor signal parsingFailed =>
    match signal with
    | .branched _ index first others =>
      firstFrom cursor parsingFailed alternatives ((index, first) :: others) context
    | _ => none

end Refusal

namespace Resolution

def WithoutValue (resolution : Resolution) : Prop :=
  ∀ value, resolution.outcome ≠ .ok (some value)

theorem withoutValue_of_error {resolution : Resolution} {cause : ArgumentError}
    (came : resolution.outcome = .error cause) : resolution.WithoutValue := by
  simp [WithoutValue, came]

theorem withoutValue_of_none {resolution : Resolution} (came : resolution.outcome = .ok none) :
    resolution.WithoutValue := by
  simp [WithoutValue, came]

/-- Without a value, what is left in the context is what the last refusal left there. -/
def LeavesRefused (resolver : Resolver) (refusal : Refusal) : Prop :=
  ∀ context cursor signal parsingFailed,
    (resolver context cursor signal parsingFailed).WithoutValue →
      (resolver context cursor signal parsingFailed).context =
        (refusal context cursor signal parsingFailed).getD context

namespace LeavesRefused

variable {resolver : Resolver} {refusal : Refusal}

theorem unwrapped (h : LeavesRefused resolver refusal) :
    LeavesRefused (Resolution.unwrapped resolver) refusal.unwrapped := by
  intro context cursor signal parsingFailed nothing
  unfold Resolution.unwrapped at nothing ⊢
  unfold Refusal.unwrapped
  cases layer : signal.inner? with
  | none => rfl
  | some inner =>
    rw [layer] at nothing
    exact h context cursor inner parsingFailed nothing

theorem orAbsent (h : LeavesRefused resolver refusal) :
    LeavesRefused (Resolution.orAbsent resolver) refusal.unwrapped := by
  refine unwrapped fun context cursor signal parsingFailed nothing => ?_
  have left := h context cursor signal parsingFailed
  dsimp only at nothing ⊢
  cases came : (resolver context cursor signal parsingFailed).outcome with
  | ok result =>
    rw [came] at nothing
    exact left nothing
  | error cause => exact left (withoutValue_of_error came)

theorem named (h : LeavesRefused resolver refusal) (display lead : String) :
    LeavesRefused (Resolution.named display lead resolver) (refusal.named lead) := by
  refine unwrapped fun context cursor signal parsingFailed nothing => ?_
  rcases Attempt.stripped_cases display lead id
      (fun adjusted => resolver context adjusted signal parsingFailed) context cursor with
    ⟨strip, cause, eq⟩ | ⟨adjusted, strip, ⟨failure, came, eq⟩ | ⟨result, came, eq⟩⟩
  · rw [eq, strip]
    rfl
  · rw [eq, strip]
    exact h context adjusted signal parsingFailed (withoutValue_of_error came)
  · rw [eq] at nothing
    rw [eq, strip]
    exact h context adjusted signal parsingFailed nothing

theorem mapped (h : LeavesRefused resolver refusal) (name : String)
    (mapping : Value → Except ArgumentError Value) :
    LeavesRefused (Resolution.mapped name mapping resolver)
      (refusal.mapped mapping resolver) := by
  refine unwrapped fun context cursor signal parsingFailed nothing => ?_
  have left := h context cursor signal parsingFailed
  dsimp only at nothing ⊢
  cases came : (resolver context cursor signal parsingFailed).outcome with
  | error cause => exact left (withoutValue_of_error came)
  | ok result =>
    cases result with
    | none => exact left (withoutValue_of_none came)
    | some value =>
      rw [came] at nothing
      dsimp only at nothing ⊢
      -- What is refused here has been stored by the inner argument already.
      cases refused : mapping value with
      | error cause => rfl
      | ok image =>
        rw [refused] at nothing
        exact absurd rfl (nothing image)

theorem produce {name : String} {producer again : Reader} {stored : List String}
    (ofProducer : ∀ context cursor, (producer context cursor).Backtracks [] context cursor)
    (ofAgain : ∀ context cursor, (again context cursor).Backtracks stored context cursor) :
    LeavesRefused (Resolution.produce name producer again) fun _ _ _ _ => none := by
  intro context cursor signal parsingFailed nothing
  have viewed := (ofProducer context cursor).context_eq
  unfold Resolution.produce at nothing ⊢
  dsimp only [Option.getD_none] at nothing ⊢
  rw [viewed] at nothing ⊢
  split at nothing
  next => rfl
  next value _ => exact absurd rfl (nothing value)
  next =>
    split at nothing
    next final => rw [if_pos final]
    next circumstantial =>
      rw [if_neg circumstantial]
      split at nothing
      next failed => rw [if_pos failed]
      next passed =>
        rw [if_neg passed]
        -- The second reading backtracks as any other.
        have read := ofAgain context cursor
        cases came : (again context cursor).outcome with
        | error failure => exact read.failed failure came
        | ok result =>
          cases result with
          | none => exact (read.absent came).1
          | some value =>
            refine absurd ?_ (nothing value)
            simp [Reading.settled, Attempt.mapError, came]

theorem firstFrom {name : String} {alternatives : List (Resolver × Refusal)}
    (ofAlternatives : ∀ alternative ∈ alternatives, LeavesRefused alternative.1 alternative.2)
    (start : Cursor) (parsingFailed : Bool) (branches : List (Nat × Signal)) (tally : Tally)
    (context : Context)
    (nothing : WithoutValue
      (firstFrom name start parsingFailed (alternatives.map (·.1)) branches tally context)) :
    (firstFrom name start parsingFailed (alternatives.map (·.1)) branches tally context).context =
      (Refusal.firstFrom start parsingFailed alternatives branches context).getD context := by
  induction branches generalizing tally context with
  | nil => rfl
  | cons branch rest ih =>
    obtain ⟨index, signal⟩ := branch
    unfold Resolution.firstFrom at nothing ⊢
    unfold Refusal.firstFrom
    rw [List.getElem?_map] at nothing ⊢
    cases at_ : alternatives[index]? with
    | none =>
      rw [at_] at nothing
      exact ih tally context nothing
    | some alternative =>
      -- The others start from what this one left, and their own refusals come later.
      rw [at_] at nothing
      have left := ofAlternatives alternative (List.mem_of_getElem? at_) context start signal
        parsingFailed
      dsimp only [Option.map_some] at nothing ⊢
      cases came : (alternative.1 context start signal parsingFailed).outcome with
      | ok result =>
        cases result with
        | some value =>
          rw [came] at nothing
          exact absurd rfl (nothing value)
        | none =>
          rw [came] at nothing
          rw [Option.getD_or, ← left (withoutValue_of_none came)]
          exact ih _ _ nothing
      | error cause =>
        rw [came] at nothing
        rw [Option.getD_or, ← left (withoutValue_of_error came)]
        exact ih _ _ nothing

/-- After a chained resolution that failed, the producer finds the context as that left it. -/
theorem fallback {name : String} {producer again : Reader} {stored : List String}
    (chained : Option (Resolver × Refusal))
    (ofChained : ∀ pair ∈ chained, LeavesRefused pair.1 pair.2)
    (ofProducer : ∀ context cursor, (producer context cursor).Backtracks [] context cursor)
    (ofAgain : ∀ context cursor, (again context cursor).Backtracks stored context cursor) :
    LeavesRefused (Resolution.fallback name (chained.map (·.1)) producer again)
      (chained.elim (fun _ _ _ _ => none) fun pair => pair.2.unwrapped) := by
  intro context cursor signal parsingFailed nothing
  have produced : LeavesRefused (Resolution.produce name producer again) fun _ _ _ _ => none :=
    .produce ofProducer ofAgain
  unfold Resolution.fallback at nothing ⊢
  cases chained with
  | none =>
    cases layer : signal.inner? with
    | none =>
      rw [layer] at nothing
      exact produced context cursor signal parsingFailed nothing
    | some inner =>
      rw [layer] at nothing
      exact produced context cursor inner parsingFailed nothing
  | some pair =>
    dsimp only [Option.map_some, Option.elim_some] at nothing ⊢
    unfold Refusal.unwrapped
    cases layer : signal.inner? with
    | none =>
      rw [layer] at nothing
      exact produced context cursor signal parsingFailed nothing
    | some inner =>
      rw [layer] at nothing
      have left := ofChained pair rfl context cursor inner parsingFailed
      dsimp only at nothing ⊢
      -- An absent argument is not handed on to the producer.
      cases came : (pair.1 context cursor inner parsingFailed).outcome with
      | ok result =>
        rw [came] at nothing
        exact left nothing
      | error cause =>
        rw [came] at nothing
        rw [← left (withoutValue_of_error came)]
        exact produced _ cursor inner parsingFailed nothing

theorem firstOf {name : String} {alternatives : List (Resolver × Refusal)}
    (ofAlternatives : ∀ alternative ∈ alternatives, LeavesRefused alternative.1 alternative.2) :
    LeavesRefused (Resolution.firstOf name (alternatives.map (·.1)))
      (Refusal.firstOf alternatives) := by
  intro context cursor signal parsingFailed nothing
  cases signal with
  | branched argument index first others =>
    exact LeavesRefused.firstFrom ofAlternatives cursor parsingFailed _ _ context nothing
  | raised argument error => rfl
  | wrapped argument inner => rfl

end LeavesRefused

end Resolution

namespace Argument

variable {σ : Type}

mutual

def refusal (input : Input σ) : Argument σ → Refusal
  | .optional inner => (refusal input inner).unwrapped
  | .named inner => (refusal input inner).named inner.info.lead
  | .mapped inner mapping => (refusal input inner).mapped mapping (resolve input inner)
  | .fallback primary _ =>
    if primary.isFallback then (refusal input primary).unwrapped else fun _ _ _ _ => none
  | .firstOf _ alternatives _ => .firstOf (refusals input alternatives)
  | _ => fun _ _ _ _ => none

def refusals (input : Input σ) : List (Argument σ) → List (Resolver × Refusal)
  | [] => []
  | argument :: rest => (resolve input argument, refusal input argument) :: refusals input rest

end

theorem refusals_eq_map (input : Input σ) (arguments : List (Argument σ)) :
    refusals input arguments =
      arguments.map fun argument => (argument.resolve input, argument.refusal input) := by
  induction arguments with
  | nil => rfl
  | cons argument rest ih => simp [refusals, ih]

theorem map_fst_refusals (input : Input σ) (arguments : List (Argument σ)) :
    (refusals input arguments).map (·.1) = resolvers input arguments := by
  simp [refusals_eq_map, resolvers_eq_map]

theorem leavesRefused_resolve (input : Input σ) (argument : Argument σ) :
    Resolution.LeavesRefused (argument.resolve input) (argument.refusal input) := by
  induction argument with
  | recorder name accepted =>
    intro context cursor signal parsingFailed nothing
    cases parsingFailed with
    | true => rfl
    | false => exact absurd rfl (nothing _)
  | optional inner ih => exact ih.orAbsent
  | named inner ih => exact ih.named _ _
  | mapped inner mapping ih => exact ih.mapped _ mapping
  | fallback primary producer ofPrimary _ =>
    have ofProducer := backtracks_read input .viewing producer
    have ofAgain := backtracks_read input .storing primary
    rw [resolve, refusal]
    cases primary.isFallback with
    | true =>
      exact .fallback (some (primary.resolve input, primary.refusal input))
        (fun _ same => Option.some.inj same ▸ ofPrimary) ofProducer ofAgain
    | false => exact .fallback none (fun _ absent => by cases absent) ofProducer ofAgain
  | firstOf label alternatives style ofAlternatives =>
    rw [resolve, refusal, ← map_fst_refusals]
    refine .firstOf fun alternative inside => ?_
    rw [refusals_eq_map] at inside
    obtain ⟨member, belongs, rfl⟩ := List.mem_map.mp inside
    exact ofAlternatives member belongs
  | _ => exact fun _ _ _ _ _ => rfl

/-- While the argument is resolved, some mapping in its tree refuses the value of its inner
argument, whose resolution leaves `after`. -/
def RefusesWithin (input : Input σ) (parsingFailed : Bool) (after : Context)
    (argument : Argument σ) : Prop :=
  ∃ inner mapping, .mapped inner mapping ∈ argument.nodes ∧
    ∃ context cursor signal value cause,
      let handed := inner.resolve input context cursor signal parsingFailed
      handed.outcome = .ok (some value) ∧ mapping value = .error cause ∧ handed.context = after

theorem RefusesWithin.above {input : Input σ} {parsingFailed : Bool} {after : Context}
    {argument inner : Argument σ} (h : inner.RefusesWithin input parsingFailed after)
    (below : ∀ node ∈ inner.nodes, node ∈ argument.nodes) :
    argument.RefusesWithin input parsingFailed after := by
  obtain ⟨innermost, mapping, inside, refused⟩ := h
  exact ⟨innermost, mapping, below _ inside, refused⟩

theorem refusal_firstFrom_cases {start : Cursor} {parsingFailed : Bool}
    {alternatives : List (Resolver × Refusal)} {branches : List (Nat × Signal)}
    {context after : Context}
    (refused : Refusal.firstFrom start parsingFailed alternatives branches context = some after) :
    ∃ alternative ∈ alternatives, ∃ context signal,
      alternative.2 context start signal parsingFailed = some after := by
  induction branches generalizing context with
  | nil => cases refused
  | cons branch rest ih =>
    unfold Refusal.firstFrom at refused
    split at refused
    next => exact ih refused
    next resolver refusal at_ =>
      rcases Option.or_eq_some_iff.mp refused with inRest | ⟨-, here⟩
      · exact ih inRest
      · exact ⟨(resolver, refusal), List.mem_of_getElem? at_, context, branch.2, here⟩

theorem refusal_unwrapped_cases {refusal : Refusal} {context after : Context} {cursor : Cursor}
    {signal : Signal} {parsingFailed : Bool}
    (refused : refusal.unwrapped context cursor signal parsingFailed = some after) :
    ∃ inner, refusal context cursor inner parsingFailed = some after := by
  unfold Refusal.unwrapped at refused
  split at refused
  next => cases refused
  next inner _ => exact ⟨inner, refused⟩

/-- Every refusal is one by a mapping of the tree. -/
theorem refusesWithin_of_refusal {input : Input σ} {argument : Argument σ}
    {context after : Context} {cursor : Cursor} {signal : Signal} {parsingFailed : Bool}
    (refused : argument.refusal input context cursor signal parsingFailed = some after) :
    argument.RefusesWithin input parsingFailed after := by
  induction argument generalizing context cursor signal with
  | optional inner ih =>
    obtain ⟨below, here⟩ := refusal_unwrapped_cases refused
    exact (ih here).above fun node inside => List.mem_cons_of_mem _ inside
  | named inner ih =>
    rw [refusal, Refusal.named] at refused
    obtain ⟨below, here⟩ := refusal_unwrapped_cases refused
    split at here
    next => cases here
    next => exact (ih here).above fun node inside => List.mem_cons_of_mem _ inside
  | mapped inner mapping ih =>
    rw [refusal, Refusal.mapped] at refused
    obtain ⟨below, here⟩ := refusal_unwrapped_cases refused
    dsimp only at here
    split at here
    next value came =>
      split at here
      next cause refuses =>
        exact ⟨inner, mapping, List.mem_cons_self, context, cursor, below, value, cause, came,
          refuses, Option.some.inj here⟩
      next => cases here
    next => exact (ih here).above fun node inside => List.mem_cons_of_mem _ inside
  | fallback primary producer ofPrimary _ =>
    rw [refusal] at refused
    split at refused
    next =>
      obtain ⟨below, here⟩ := refusal_unwrapped_cases refused
      exact (ofPrimary here).above fun node inside =>
        List.mem_cons_of_mem _ (List.mem_append_left _ inside)
    next => cases refused
  | firstOf label alternatives style ofAlternatives =>
    rw [refusal, refusals_eq_map] at refused
    unfold Refusal.firstOf at refused
    split at refused
    next =>
      obtain ⟨_, inside, context, signal, here⟩ := refusal_firstFrom_cases refused
      obtain ⟨alternative, member, rfl⟩ := List.mem_map.mp inside
      exact (ofAlternatives alternative member here).above fun node below =>
        List.mem_cons_of_mem _ (mem_nodesOfAll.mpr ⟨alternative, member, below⟩)
    next => cases refused
  | _ => cases refused

/-- Without a value, an absent argument leaves the cursor where it was, and the context differs
from what it was exactly if a mapping refused a value after something had been stored for it:
then it is the context in which the last such mapping was asked. -/
theorem resolve_without_value (input : Input σ) (argument : Argument σ) (context : Context)
    (cursor : Cursor) (signal : Signal) (parsingFailed : Bool)
    (nothing : (argument.resolve input context cursor signal parsingFailed).WithoutValue) :
    let resolution := argument.resolve input context cursor signal parsingFailed
    let refused := argument.refusal input context cursor signal parsingFailed
    (resolution.outcome = .ok none → resolution.cursor = cursor) ∧
      resolution.context = refused.getD context ∧
      (resolution.context = context ↔ ∀ after ∈ refused, after = context) ∧
      ∀ after ∈ refused, argument.RefusesWithin input parsingFailed after := by
  intro resolution refused
  have kept := alwaysKeeps_resolve input argument context cursor signal parsingFailed
  have left := leavesRefused_resolve input argument context cursor signal parsingFailed nothing
  refine ⟨kept.absent, left, ?_, fun after here => refusesWithin_of_refusal here⟩
  show resolution.context = context ↔ _
  rw [show resolution.context = refused.getD context from left]
  cases refused with
  | none => simp
  | some after => simp

def refusedDefault : Argument Unit :=
  .optional <| .mapped
    (orDefault (.integer ⟨"count", none⟩ ⟨true, 32, false⟩) (.integer ⟨true, 32, false⟩ 5))
    fun value => .error (.invalid "count" value.shown none)

def refusedDefaultSignal : Signal :=
  .wrapped "count" (.wrapped "count" (.raised "count" (.missing "count")))

/-- The argument is absent in the end, but what was refused stays stored. -/
theorem refused_default_stays_stored :
    (refusedDefault.read ⟨(), 20⟩ .storing .empty (.ofList [])).outcome =
        .error (.deferred refusedDefaultSignal) ∧
      let resolution :=
        refusedDefault.resolve ⟨(), 20⟩ .empty (.ofList []) refusedDefaultSignal false
      resolution.outcome = .ok none ∧
        resolution.context.entries = [("count", .integer ⟨true, 32, false⟩ 5)] :=
  ⟨rfl, rfl, rfl⟩

theorem resolve_without_value_refusedDefault :
    let resolution :=
      refusedDefault.resolve ⟨(), 20⟩ .empty (.ofList []) refusedDefaultSignal false
    resolution.WithoutValue ∧ resolution.cursor = .ofList [] ∧
      resolution.context = ((refusedDefault.refusal ⟨(), 20⟩ .empty (.ofList [])
        refusedDefaultSignal false).getD .empty) :=
  have nothing := Resolution.withoutValue_of_none rfl
  have law := resolve_without_value ⟨(), 20⟩ refusedDefault .empty (.ofList [])
    refusedDefaultSignal false nothing
  ⟨nothing, law.1 rfl, law.2.1⟩

end Argument

end CommandLine
