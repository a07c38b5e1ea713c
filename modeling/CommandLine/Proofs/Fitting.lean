import CommandLine.Argument.Build
import CommandLine.Argument.Resolve
import CommandLine.Proofs.Steadiness

/-! Signals come back to the tree that sent them.

An argument puts off its decision with a signal of its own shape: wrappers add
the layer that they take off later, and the branches of an alternation lead to
its own members. Resolving it therefore never meets a signal that a level of the
tree cannot take apart, whatever that level would do with one.
-/

set_option autoImplicit false

namespace CommandLine

variable {σ : Type}

namespace Signal

/-- The signal has the shape that the argument takes apart when it is resolved, at every level. -/
inductive Fits : Argument σ → Signal → Prop where
  | recorded {name accepted : String} {cause : ArgumentError} :
    Fits (.recorder name accepted) (.raised name cause)
  | optional {inner : Argument σ} {signal : Signal} (below : Fits inner signal) :
    Fits (.optional inner) (.wrapped inner.name signal)
  | named {inner : Argument σ} {signal : Signal} (below : Fits inner signal) :
    Fits (.named inner) (.wrapped inner.name signal)
  | mapped {inner : Argument σ} {mapping : Value → Except ArgumentError Value} {signal : Signal}
      (below : Fits inner signal) :
    Fits (.mapped inner mapping) (.wrapped inner.name signal)
  | raised {primary producer : Argument σ} {cause : ArgumentError} :
    Fits (.fallback primary producer) (.raised primary.name cause)
  | chained {primary producer : Argument σ} {signal : Signal} (below : Fits primary signal) :
    Fits (.fallback primary producer) (.wrapped primary.name signal)
  | branched {label : Label} {alternatives : List (Argument σ)} {style : AlternationStyle}
      {index : Nat} {first : Signal} {others : List (Nat × Signal)}
      (increasing : (((index, first) :: others).map (·.1)).Pairwise (· < ·))
      (within : ∀ branch ∈ (index, first) :: others, ∃ alternative,
        alternatives[branch.1]? = some alternative ∧ alternative.isFallback = true)
      (below : ∀ branch ∈ (index, first) :: others, ∀ alternative,
        alternatives[branch.1]? = some alternative → Fits alternative branch.2) :
    Fits (.firstOf label alternatives style) (.branched label.name index first others)

def Branches (expected : Nat → Signal → Prop) (name : String) (signal : Signal) : Prop :=
  ∃ index first others, signal = .branched name index first others ∧
    (((index, first) :: others).map (·.1)).Pairwise (· < ·) ∧
    ∀ branch ∈ (index, first) :: others, expected branch.1 branch.2

end Signal

namespace Tally

structure Collects (expected : Nat → Signal → Prop) (index : Nat) (tally : Tally) : Prop where
  increasing : (tally.deferred.map (·.1)).Pairwise (· < ·)
  earlier : ∀ branch ∈ tally.deferred, branch.1 < index
  each : ∀ branch ∈ tally.deferred, expected branch.1 branch.2

namespace Collects

variable {expected : Nat → Signal → Prop} {index : Nat} {tally : Tally}

theorem empty : Collects expected index Tally.empty :=
  ⟨.nil, nofun, nofun⟩

theorem addAbsent (h : tally.Collects expected index) :
    tally.addAbsent.Collects expected (index + 1) :=
  ⟨h.increasing, fun branch inside => Nat.lt_succ_of_lt (h.earlier branch inside), h.each⟩

theorem addError (h : tally.Collects expected index) (cause : ArgumentError) :
    (tally.addError cause).Collects expected (index + 1) := by
  unfold Tally.addError
  split <;> exact ⟨h.increasing, h.addAbsent.earlier, h.each⟩

theorem addDeferred (h : tally.Collects expected index) {signal : Signal}
    (own : expected index signal) :
    (tally.addDeferred index signal).Collects expected (index + 1) := by
  constructor
  · simp only [Tally.addDeferred, List.map_append, List.pairwise_append]
    refine ⟨h.increasing, List.pairwise_singleton .., ?_⟩
    simpa using fun member signal inside => h.earlier (member, signal) inside
  · refine List.forall_mem_append.mpr ⟨h.addAbsent.earlier, ?_⟩
    exact List.forall_mem_singleton.mpr (Nat.lt_succ_self index)
  · exact List.forall_mem_append.mpr ⟨h.each, List.forall_mem_singleton.mpr own⟩

theorem branches (h : tally.Collects expected index) {name : String} {signal : Signal}
    (sent : tally.outcome name = .error (.deferred signal)) : signal.Branches expected name := by
  unfold Tally.outcome at sent
  split at sent
  next first signal others came =>
    cases sent
    have increasing := h.increasing
    have each := h.each
    rw [came] at increasing each
    exact ⟨first, signal, others, rfl, increasing, each⟩
  next =>
    split at sent
    · cases sent
    · split at sent <;> cases sent

end Collects

end Tally

namespace Reading

/-- Whatever is put off is announced by a signal as it is expected. -/
def Raises (expected : Signal → Prop) (reading : Reading) : Prop :=
  ∀ signal, reading.outcome = .error (.deferred signal) → expected signal

variable {expected : Signal → Prop} {reading : Reading}

theorem Decided.raises (h : reading.Decided) : reading.Raises expected :=
  fun signal sent => absurd sent (h signal)

namespace Raises

theorem mono {wider : Signal → Prop} (h : reading.Raises expected)
    (inside : ∀ signal, expected signal → wider signal) : reading.Raises wider :=
  fun signal sent => inside signal (h signal sent)

theorem kept (h : reading.Raises expected) (mode : Mode) (name : String) :
    (reading.kept mode name).Raises expected := by
  intro signal
  rw [outcome_kept]
  exact h signal

theorem wrapped (h : reading.Raises expected) (name : String) :
    (reading.wrapped name).Raises fun signal =>
      ∃ inner, signal = .wrapped name inner ∧ expected inner := by
  intro signal sent
  unfold Reading.wrapped at sent
  split at sent
  next inner came =>
    cases sent
    exact ⟨inner, rfl, h inner came⟩
  next settled => exact absurd sent (settled signal)

theorem orAbsent (h : reading.Raises expected) (name : String) (start : Cursor) :
    (reading.orAbsent name start).Raises fun signal =>
      ∃ inner, signal = .wrapped name inner ∧ expected inner := by
  intro signal sent
  unfold Reading.orAbsent at sent
  split at sent
  next came =>
    rw [came] at sent
    cases sent
  next inner came =>
    cases sent
    exact ⟨inner, rfl, h inner came⟩
  next => cases sent

theorem mapped (h : reading.Raises expected) (name : String)
    (mapping : Value → Except ArgumentError Value) :
    (reading.mapped name mapping).Raises fun signal =>
      ∃ inner, signal = .wrapped name inner ∧ expected inner := by
  intro signal sent
  unfold Reading.mapped at sent
  split at sent
  next came =>
    rw [came] at sent
    cases sent
  next => split at sent <;> cases sent
  next came =>
    rw [came] at sent
    cases sent
  next inner came =>
    cases sent
    exact ⟨inner, rfl, h inner came⟩

theorem postponed (h : reading.Raises expected) (name : String) :
    (reading.postponed name).Raises fun signal =>
      (∃ cause, signal = .raised name cause) ∨
        ∃ inner, signal = .wrapped name inner ∧ expected inner := by
  intro signal sent
  unfold Reading.postponed at sent
  split at sent
  next came =>
    rw [came] at sent
    cases sent
  next cause _ =>
    cases sent
    exact .inl ⟨cause, rfl⟩
  next inner came =>
    cases sent
    exact .inr ⟨inner, rfl, h inner came⟩

end Raises

theorem postponed_ne_error (reading : Reading) (name : String) (cause : ArgumentError) :
    (reading.postponed name).outcome ≠ .error (.error cause) := by
  unfold Reading.postponed
  split
  next came =>
    rw [came]
    exact nofun
  next => exact nofun
  next => exact nofun

section

variable {context : Context} {cursor : Cursor}

theorem raises_recorder (name accepted : String) :
    (recorder name accepted context cursor).Raises fun signal =>
      ∃ cause, signal = .raised name cause := by
  intro signal sent
  unfold recorder token at sent
  split at sent
  next => cases sent
  next typed rest _ =>
    split at sent
    next failure refused =>
      dsimp only at refused
      split at refused
      next => cases refused
      next =>
        cases refused
        cases sent
        exact ⟨_, rfl⟩
    next => cases sent

theorem raises_stripped (display lead : String) {run : Cursor → Reading}
    (ofRun : ∀ adjusted, (run adjusted).Raises expected) :
    Raises expected (.stripped display lead .error run context cursor) := by
  unfold Attempt.stripped
  split
  · exact nofun
  · split
    · exact nofun
    next adjusted _ =>
      dsimp only
      split <;> exact ofRun adjusted

theorem raises_firstFrom {expected : Nat → Signal → Prop} {alternatives : List Reader}
    {index : Nat} {tally : Tally} (name : String) (collected : tally.Collects expected index)
    (ofAlternatives : ∀ (i : Nat) (alternative : Reader), alternatives[i]? = some alternative →
      ∀ context, (alternative context cursor).Raises (expected (index + i))) :
    (firstFrom name cursor index tally alternatives context).Raises
      (Signal.Branches expected name) := by
  induction alternatives generalizing index tally context with
  | nil => exact fun signal sent => collected.branches sent
  | cons alternative rest ih =>
    have others : ∀ (i : Nat) (other : Reader), rest[i]? = some other →
        ∀ context, (other context cursor).Raises (expected (index + 1 + i)) := by
      intro i other at_
      rw [Nat.add_right_comm]
      exact ofAlternatives (i + 1) other at_
    have first := ofAlternatives 0 alternative rfl context
    unfold firstFrom
    dsimp only
    split
    next value came =>
      intro signal sent
      rw [came] at sent
      cases sent
    next => exact ih collected.addAbsent others
    next signal came => exact ih (collected.addDeferred (first signal came)) others
    next cause _ => exact ih (collected.addError cause) others

end

end Reading

namespace Argument

theorem isFallback_of_alternative {label : Label} {alternatives : List (Argument σ)}
    {style : AlternationStyle} {alternative : Argument σ} (member : alternative ∈ alternatives)
    (waits : alternative.isFallback = true) :
    (firstOf label alternatives style).isFallback = true := by
  cases steady : (firstOf label alternatives style).isFallback with
  | true => rfl
  | false => exact (isFallback_of_mem steady alternative member).symm.trans waits

theorem isFallback_of_fits {argument : Argument σ} {signal : Signal} (fits : signal.Fits argument) :
    argument.isFallback = true := by
  induction fits with
  | recorded => rfl
  | optional _ ih => exact ih
  | named _ ih => exact ih
  | mapped _ ih => exact ih
  | raised => rfl
  | chained => rfl
  | branched _ within _ _ =>
    obtain ⟨alternative, at_, waits⟩ := within _ List.mem_cons_self
    exact isFallback_of_alternative (List.mem_of_getElem? at_) waits

theorem raises_read (input : Input σ) (argument : Argument σ) (mode : Mode) (context : Context)
    (cursor : Cursor) : (argument.read input mode context cursor).Raises (·.Fits argument) := by
  -- Each level adds the layer that it expects later.
  induction argument generalizing mode context cursor with
  | recorder name accepted =>
    refine ((Reading.raises_recorder name accepted).kept mode name).mono ?_
    rintro _ ⟨cause, rfl⟩
    exact .recorded
  | optional inner ih =>
    refine ((ih mode context cursor).orAbsent inner.name cursor).mono ?_
    rintro _ ⟨signal, rfl, below⟩
    exact .optional below
  | named inner ih =>
    have stripped : Reading.Raises (·.Fits inner)
        (.stripped inner.display inner.info.lead .error (inner.read input mode context) context
          cursor) :=
      Reading.raises_stripped _ _ (ih mode context)
    refine (stripped.wrapped inner.name).mono ?_
    rintro _ ⟨signal, rfl, below⟩
    exact .named below
  | mapped inner mapping ih =>
    refine (((ih .viewing context cursor).mapped inner.name mapping).kept mode inner.name).mono ?_
    rintro _ ⟨signal, rfl, below⟩
    exact .mapped below
  | fallback primary producer ofPrimary _ =>
    refine ((ofPrimary mode context cursor).postponed primary.name).mono ?_
    rintro _ (⟨cause, rfl⟩ | ⟨signal, rfl, below⟩)
    · exact .raised
    · exact .chained below
  | firstOf label alternatives style ofAlternatives =>
    have branches : (Reading.firstFrom label.name cursor 0 .empty (readers input mode alternatives)
        context).Raises (Signal.Branches (fun i signal =>
          ∃ alternative, alternatives[i]? = some alternative ∧ signal.Fits alternative)
          label.name) := by
      refine Reading.raises_firstFrom label.name .empty fun i reader at_ context signal sent => ?_
      rw [readers_eq_map, List.getElem?_map, Option.map_eq_some_iff] at at_
      obtain ⟨alternative, at_, rfl⟩ := at_
      rw [Nat.zero_add]
      exact ⟨alternative, at_,
        ofAlternatives alternative (List.mem_of_getElem? at_) mode context cursor signal sent⟩
    refine (branches.kept mode label.name).mono ?_
    rintro _ ⟨index, first, others, rfl, increasing, each⟩
    refine .branched increasing (fun branch inside => ?_) fun branch inside alternative at_ => ?_
    · obtain ⟨alternative, at_, fits⟩ := each branch inside
      exact ⟨alternative, at_, isFallback_of_fits fits⟩
    · obtain ⟨_, same, fits⟩ := each branch inside
      cases at_.symm.trans same
      exact fits
  | _ => exact (decided_read input rfl mode context cursor).raises

end Argument

namespace Resolution

/-- Asks `stray` instead where the signal is not as it is expected. -/
def guarded (expected : Signal → Bool) (stray resolver : Resolver) : Resolver :=
  fun context cursor signal parsingFailed =>
    if expected signal then resolver context cursor signal parsingFailed
    else stray context cursor signal parsingFailed

theorem guarded_of {expected : Signal → Bool} {signal : Signal} (fits : expected signal = true)
    (stray resolver : Resolver) (context : Context) (cursor : Cursor) (parsingFailed : Bool) :
    guarded expected stray resolver context cursor signal parsingFailed =
      resolver context cursor signal parsingFailed :=
  if_pos fits

theorem firstFrom_congr {α : Type} {members : List α} {asked asked' : α → Resolver}
    {cursor : Cursor} {parsingFailed : Bool} {branches : List (Nat × Signal)}
    (same : ∀ branch ∈ branches, ∀ member, members[branch.1]? = some member → ∀ context,
      asked member context cursor branch.2 parsingFailed =
        asked' member context cursor branch.2 parsingFailed)
    (name : String) (tally : Tally) (context : Context) :
    firstFrom name cursor parsingFailed (members.map asked) branches tally context =
      firstFrom name cursor parsingFailed (members.map asked') branches tally context := by
  induction branches generalizing tally context with
  | nil => rfl
  | cons branch rest ih =>
    obtain ⟨index, signal⟩ := branch
    obtain ⟨first, others⟩ := List.forall_mem_cons.mp same
    simp only [firstFrom, List.getElem?_map]
    cases at_ : members[index]? with
    | none => exact ih others tally context
    | some member => simp only [Option.map_some, first member at_, ih others]

end Resolution

namespace Argument

/-- The argument itself, without regard to those below it, has a use for the signal. -/
def takesApart : Argument σ → Signal → Bool
  | .recorder .., .raised .. => true
  | .optional _, .wrapped .. => true
  | .named _, .wrapped .. => true
  | .mapped .., .wrapped .. => true
  | .fallback .., .raised .. => true
  | .fallback primary _, .wrapped .. => primary.isFallback
  | .firstOf _ alternatives _, .branched _ index first others =>
    ((index, first) :: others).all fun branch => branch.1 < alternatives.length
  | _, _ => false

mutual

/-- As `resolve`, but every level that has no use for the signal it is given asks `stray`. -/
def resolveOr (stray : Resolver) (input : Input σ) : Argument σ → Resolver
  | .recorder name accepted =>
    Resolution.guarded (takesApart (.recorder name accepted : Argument σ)) stray
      (Resolution.recorder name)
  | .optional inner =>
    Resolution.guarded (optional inner).takesApart stray
      (Resolution.orAbsent (resolveOr stray input inner))
  | .named inner =>
    Resolution.guarded (named inner).takesApart stray
      (Resolution.named inner.display inner.info.lead (resolveOr stray input inner))
  | .mapped inner mapping =>
    Resolution.guarded (mapped inner mapping).takesApart stray
      (Resolution.mapped inner.name mapping (resolveOr stray input inner))
  | .fallback primary producer =>
    Resolution.guarded (fallback primary producer).takesApart stray
      (Resolution.fallback primary.name
        (if primary.isFallback then some (resolveOr stray input primary) else none)
        (producer.read input .viewing) (primary.read input .storing))
  | .firstOf label alternatives style =>
    Resolution.guarded (firstOf label alternatives style).takesApart stray
      (Resolution.firstOf label.name (resolversOr stray input alternatives))
  | _ => stray

def resolversOr (stray : Resolver) (input : Input σ) : List (Argument σ) → List Resolver
  | [] => []
  | argument :: rest => resolveOr stray input argument :: resolversOr stray input rest

end

theorem resolversOr_eq_map (stray : Resolver) (input : Input σ) (arguments : List (Argument σ)) :
    resolversOr stray input arguments = arguments.map (resolveOr stray input) := by
  induction arguments with
  | nil => rfl
  | cons argument rest ih => simp [resolversOr, ih]

theorem takesApart_of_fits {argument : Argument σ} {signal : Signal}
    (fits : signal.Fits argument) : argument.takesApart signal = true := by
  cases fits with
  | chained below => exact isFallback_of_fits below
  | @branched label alternatives style index first others _ within _ =>
    refine List.all_eq_true.mpr fun branch inside => decide_eq_true ?_
    obtain ⟨alternative, at_, -⟩ := within branch inside
    exact (List.getElem?_eq_some_iff.mp at_).1
  | _ => rfl

theorem resolveOr_eq (stray : Resolver) (input : Input σ) {argument : Argument σ} {signal : Signal}
    (fits : signal.Fits argument) (context : Context) (cursor : Cursor) (parsingFailed : Bool) :
    argument.resolveOr stray input context cursor signal parsingFailed =
      argument.resolve input context cursor signal parsingFailed := by
  induction fits generalizing context cursor with
  | recorded =>
    rw [resolveOr, resolve, Resolution.guarded_of (takesApart_of_fits .recorded)]
  | optional below ih =>
    rw [resolveOr, resolve, Resolution.guarded_of (takesApart_of_fits (.optional below))]
    simp only [Resolution.orAbsent, Resolution.unwrapped, Signal.inner?, ih]
  | named below ih =>
    rw [resolveOr, resolve, Resolution.guarded_of (takesApart_of_fits (.named below))]
    simp only [Resolution.named, Resolution.unwrapped, Signal.inner?, ih]
  | mapped below ih =>
    rw [resolveOr, resolve, Resolution.guarded_of (takesApart_of_fits (.mapped below))]
    simp only [Resolution.mapped, Resolution.unwrapped, Signal.inner?, ih]
  | raised =>
    rw [resolveOr, resolve, Resolution.guarded_of (takesApart_of_fits .raised)]
    rfl
  | chained below ih =>
    rw [resolveOr, resolve, Resolution.guarded_of (takesApart_of_fits (.chained below))]
    simp only [Resolution.fallback, Signal.inner?, isFallback_of_fits below, if_true, ih]
  | branched increasing within below ih =>
    rw [resolveOr, resolve,
      Resolution.guarded_of (takesApart_of_fits (.branched increasing within below)),
      resolversOr_eq_map, resolvers_eq_map]
    refine Resolution.firstFrom_congr (fun branch inside alternative at_ context => ?_) ..
    exact ih branch inside alternative at_ context cursor

/-- Only an argument that is marked so puts off its decision, a fallback does nothing else when
it fails, and what is sent comes back in a shape that every level can take apart. -/
theorem read_signal_fits (input : Input σ) (argument : Argument σ) (mode : Mode)
    (context : Context) (cursor : Cursor) :
    (∀ signal, (argument.read input mode context cursor).outcome = .error (.deferred signal) →
      argument.isFallback = true ∧ signal.Fits argument ∧
      ∀ stray input context cursor parsingFailed,
        argument.resolveOr stray input context cursor signal parsingFailed =
          argument.resolve input context cursor signal parsingFailed) ∧
    ∀ primary producer, argument = .fallback primary producer →
      ∀ cause, (argument.read input mode context cursor).outcome ≠ .error (.error cause) := by
  constructor
  · intro signal sent
    have fits := raises_read input argument mode context cursor signal sent
    refine ⟨isFallback_of_fits fits, fits, ?_⟩
    intro stray input context cursor parsingFailed
    exact resolveOr_eq stray input fits context cursor parsingFailed
  · rintro primary producer rfl cause
    exact Reading.postponed_ne_error _ _ cause

def amount : Argument Unit :=
  .optional <| .firstOf ⟨"amount", none⟩
    [.literal "all" "all",
      .mapped (.orDefault (.integer ⟨"count", none⟩ ⟨true, 32, false⟩)
        (.integer ⟨true, 32, false⟩ 1)) .ok,
      .fallback (.named (.orDefault (.boolean ⟨"half", none⟩) (.boolean true)))
        (.fixed ⟨"half", none⟩ (.boolean false))]
    .listed

def amountSignal : Signal :=
  .wrapped "amount" <| .branched "amount" 1
    (.wrapped "count" (.raised "count" (.invalid "count" "half=x" none)))
    [(2, .wrapped "half" (.wrapped "half" (.raised "half" (.invalid "half" "x" none))))]

theorem read_amount_signal_fits :
    (amount.read ⟨(), 20⟩ .storing .empty (.ofList ["half=x"])).outcome =
        .error (.deferred amountSignal) ∧
      amount.isFallback = true ∧ amountSignal.Fits amount ∧
      ∀ stray input context cursor parsingFailed,
        amount.resolveOr stray input context cursor amountSignal parsingFailed =
          amount.resolve input context cursor amountSignal parsingFailed := by
  have sent : (amount.read ⟨(), 20⟩ .storing .empty (.ofList ["half=x"])).outcome =
      .error (.deferred amountSignal) := rfl
  exact ⟨sent,
    (read_signal_fits ⟨(), 20⟩ amount .storing .empty (.ofList ["half=x"])).1 amountSignal sent⟩

end Argument

end CommandLine
