import CommandLine.Argument.Complete
import CommandLine.Proofs.Fitting
import CommandLine.Proofs.TieBreak

/-! Arguments that cannot be told apart.

Two arguments may put off their decision with signals of different shapes, as long
as each has the same answer to its own. Whatever is built from the one can then
not be told from what is built from the other in the same way.
-/

set_option autoImplicit false

namespace CommandLine

/-- The resolvers answer to the signals in the same way, whenever they are asked. -/
structure Signal.Answered (left right : Resolver) (signal signal' : Signal) : Prop where
  rootCause : signal.rootCause = signal'.rootCause
  resolve : ∀ context cursor parsingFailed,
    left context cursor signal parsingFailed = right context cursor signal' parsingFailed

theorem Signal.Answered.refl (resolver : Resolver) (signal : Signal) :
    signal.Answered resolver resolver signal :=
  ⟨rfl, fun _ _ _ => rfl⟩

namespace Reading

/-- The readings are the same, unless they wait: then the signals are answered alike. -/
inductive Matches (left right : Resolver) : Reading → Reading → Prop where
  | decided {reading : Reading} (decided : reading.Decided) : Matches left right reading reading
  | deferred {signal signal' : Signal} {context : Context} {cursor : Cursor} {events : List Event}
    (same : signal.Answered left right signal') :
    Matches left right ⟨.error (.deferred signal), context, cursor, events⟩
      ⟨.error (.deferred signal'), context, cursor, events⟩

namespace Matches

variable {left right left' right' : Resolver} {first second : Reading}

@[elab_as_elim]
theorem elim {motive : Reading → Reading → Prop} (h : first.Matches left right second)
    (decided : ∀ {reading : Reading}, reading.Decided → motive reading reading)
    (deferred : ∀ {signal signal' context cursor events}, signal.Answered left right signal' →
      motive ⟨.error (.deferred signal), context, cursor, events⟩
        ⟨.error (.deferred signal'), context, cursor, events⟩) : motive first second := by
  cases h with
  | decided settled => exact decided settled
  | deferred same => exact deferred same

theorem refl (resolver : Resolver) (reading : Reading) :
    reading.Matches resolver resolver reading := by
  obtain ⟨outcome, context, cursor, events⟩ := reading
  match outcome with
  | .ok value => exact .decided nofun
  | .error (.error cause) => exact .decided nofun
  | .error (.deferred signal) => exact .deferred (.refl ..)

theorem settled (h : first.Matches left right second) : first.settled = second.settled := by
  refine h.elim (fun _ => rfl) fun same => ?_
  simp [Reading.settled, Attempt.mapError, Failure.rootCause, same.rootCause]

theorem isOk (h : first.Matches left right second) :
    first.outcome.isOk = second.outcome.isOk :=
  h.elim (fun _ => rfl) fun _ => rfl

theorem outcome_cases (h : first.Matches left right second) :
    (∃ value, first.outcome = .ok value ∧ second.outcome = .ok value) ∨
      (∃ cause, first.outcome = .error (.error cause) ∧ second.outcome = .error (.error cause)) ∨
      ∃ signal signal', first.outcome = .error (.deferred signal) ∧
        second.outcome = .error (.deferred signal') ∧ signal.Answered left right signal' := by
  refine h.elim (fun {reading} settled => ?_) fun same => .inr (.inr ⟨_, _, rfl, rfl, same⟩)
  cases came : reading.outcome with
  | ok value => exact .inl ⟨value, rfl, rfl⟩
  | error failure =>
    cases failure with
    | error cause => exact .inr (.inl ⟨cause, rfl, rfl⟩)
    | deferred signal => exact absurd came (settled signal)

theorem context (h : first.Matches left right second) : first.context = second.context :=
  h.elim (fun _ => rfl) fun _ => rfl

theorem cursor (h : first.Matches left right second) : first.cursor = second.cursor :=
  h.elim (fun _ => rfl) fun _ => rfl

theorem events (h : first.Matches left right second) : first.events = second.events :=
  h.elim (fun _ => rfl) fun _ => rfl

theorem after (h : first.Matches left right second) (earlier : List Event) :
    Reading.Matches left right (Attempt.after first earlier) (Attempt.after second earlier) := by
  refine h.elim (fun settled => ?_) fun same => ?_
  · exact .decided settled
  · exact .deferred same

theorem kept (h : first.Matches left right second) (mode : Mode) (name : String) :
    (first.kept mode name).Matches left right (second.kept mode name) := by
  refine h.elim (fun settled => ?_) fun same => ?_
  · exact .decided (settled.kept mode name)
  · cases mode <;> exact .deferred same

theorem wrapped (h : first.Matches left right second) (name : String)
    (layer : ∀ {signal signal'}, signal.Answered left right signal' →
      (Signal.wrapped name signal).Answered left' right' (.wrapped name signal')) :
    (first.wrapped name).Matches left' right' (second.wrapped name) := by
  refine h.elim (fun settled => ?_) fun same => ?_
  · exact .decided (settled.wrapped name)
  · exact .deferred (layer same)

theorem orAbsent (h : first.Matches left right second) (name : String) (start : Cursor)
    (layer : ∀ {signal signal'}, signal.Answered left right signal' →
      (Signal.wrapped name signal).Answered left' right' (.wrapped name signal')) :
    (first.orAbsent name start).Matches left' right' (second.orAbsent name start) := by
  refine h.elim (fun settled => ?_) fun same => ?_
  · exact .decided (settled.orAbsent name start)
  · exact .deferred (layer same)

theorem mapped (h : first.Matches left right second) (name : String)
    (mapping : Value → Except ArgumentError Value)
    (layer : ∀ {signal signal'}, signal.Answered left right signal' →
      (Signal.wrapped name signal).Answered left' right' (.wrapped name signal')) :
    (first.mapped name mapping).Matches left' right' (second.mapped name mapping) := by
  refine h.elim (fun settled => ?_) fun same => ?_
  · exact .decided (settled.mapped name mapping)
  · exact .deferred (layer same)

/-- Besides the layer there is the signal that the argument sends itself when it fails. -/
theorem postponed (h : first.Matches left right second) (name : String)
    (own : ∀ cause, (Signal.raised name cause).Answered left' right' (.raised name cause))
    (layer : ∀ {signal signal'}, signal.Answered left right signal' →
      (Signal.wrapped name signal).Answered left' right' (.wrapped name signal')) :
    (first.postponed name).Matches left' right' (second.postponed name) := by
  refine h.elim (fun {reading} settled => ?_) fun same => ?_
  · obtain ⟨outcome, context, cursor, events⟩ := reading
    match outcome with
    | .ok value => exact .decided nofun
    | .error (.error cause) => exact .deferred (own cause)
    | .error (.deferred signal) => exact absurd rfl (settled signal)
  · exact .deferred (layer same)

end Matches

theorem matches_stripped {left right : Resolver} {run run' : Cursor → Reading}
    (ofRun : ∀ adjusted, (run adjusted).Matches left right (run' adjusted)) (display lead : String)
    (context : Context) (cursor : Cursor) :
    Matches left right (.stripped display lead .error run context cursor)
      (.stripped display lead .error run' context cursor) := by
  unfold Attempt.stripped
  split
  · exact .decided nofun
  · split
    · exact .decided nofun
    next adjusted _ =>
      refine (ofRun adjusted).elim (fun {reading} settled => ?_) fun same => ?_
      · dsimp only
        split <;> exact .decided settled
      · exact .deferred same

end Reading

namespace Resolution

section

variable {left right : Resolver} {signal signal' : Signal}

theorem answered_unwrapped {resolver resolver' : Resolver}
    (rootCause : signal.rootCause = signal'.rootCause)
    (same : ∀ context cursor parsingFailed, resolver context cursor signal parsingFailed =
      resolver' context cursor signal' parsingFailed) (name : String) :
    (Signal.wrapped name signal).Answered (unwrapped resolver) (unwrapped resolver')
      (.wrapped name signal') :=
  ⟨rootCause, same⟩

theorem answered_orAbsent (same : signal.Answered left right signal') (name : String) :
    (Signal.wrapped name signal).Answered (orAbsent left) (orAbsent right)
      (.wrapped name signal') := by
  refine answered_unwrapped same.rootCause (fun context cursor parsingFailed => ?_) name
  rw [same.resolve]

theorem answered_named (same : signal.Answered left right signal') (display lead name : String) :
    (Signal.wrapped name signal).Answered (named display lead left) (named display lead right)
      (.wrapped name signal') := by
  refine answered_unwrapped same.rootCause (fun context cursor parsingFailed => ?_) name
  simp only [same.resolve]

theorem answered_mapped (same : signal.Answered left right signal') (own : String)
    (mapping : Value → Except ArgumentError Value) (name : String) :
    (Signal.wrapped name signal).Answered (mapped own mapping left) (mapped own mapping right)
      (.wrapped name signal') := by
  refine answered_unwrapped same.rootCause (fun context cursor parsingFailed => ?_) name
  simp only [same.resolve]

theorem produce_eq {producer producer' again again' : Reader}
    (ofProducer : ∀ context cursor,
      Reading.settled (producer context cursor) = Reading.settled (producer' context cursor))
    (ofAgain : ∀ context cursor,
      Reading.settled (again context cursor) = Reading.settled (again' context cursor))
    (same : signal.rootCause = signal'.rootCause) (name : String) (context : Context)
    (cursor : Cursor) (parsingFailed : Bool) :
    produce name producer again context cursor signal parsingFailed =
      produce name producer' again' context cursor signal' parsingFailed := by
  have produced := ofProducer context cursor
  unfold produce
  generalize producer context cursor = first at produced
  generalize producer' context cursor = second at produced
  obtain ⟨outcome, context, cursor, events⟩ := first
  obtain ⟨outcome', context', cursor', events'⟩ := second
  obtain ⟨came, rfl, rfl, rfl⟩ := Attempt.mk.inj produced
  match outcome, outcome' with
  | .ok none, .ok none => rfl
  | .ok (some value), .ok (some value') =>
    cases came
    rfl
  | .error failure, .error failure' =>
    dsimp only
    rw [Except.error.inj came, ofAgain, same]
  | .ok none, .ok (some value) => cases came
  | .ok (some value), .ok none => cases came
  | .ok value, .error failure => cases came
  | .error failure, .ok value => cases came

/-- The primary arguments and the producers may both be replaced. -/
theorem answered_fallback (waits : Bool) {producer producer' again again' : Reader}
    (ofProducer : ∀ context cursor,
      Reading.settled (producer context cursor) = Reading.settled (producer' context cursor))
    (ofAgain : ∀ context cursor,
      Reading.settled (again context cursor) = Reading.settled (again' context cursor))
    (name : String) :
    let resolver := fallback name (if waits then some left else none) producer again
    let resolver' := fallback name (if waits then some right else none) producer' again'
    (∀ cause, (Signal.raised name cause).Answered resolver resolver' (.raised name cause)) ∧
      ∀ {signal signal'}, signal.Answered left right signal' →
        (Signal.wrapped name signal).Answered resolver resolver' (.wrapped name signal') := by
  intro resolver resolver'
  refine ⟨fun cause => ⟨rfl, ?_⟩, fun same => ⟨same.rootCause, ?_⟩⟩
  · exact fun context cursor parsingFailed => produce_eq ofProducer ofAgain rfl ..
  · intro context cursor parsingFailed
    have produced := produce_eq ofProducer ofAgain same.rootCause name
    cases waits with
    | false => exact produced ..
    | true =>
      simp only [resolver, resolver', fallback, Signal.inner?, if_true, same.resolve, produced]

def Branches (lefts rights : List Resolver) :
    List (Nat × Signal) → List (Nat × Signal) → Prop :=
  List.Forall₂ fun branch branch' => branch.1 = branch'.1 ∧
    ∃ left right, lefts[branch.1]? = some left ∧ rights[branch.1]? = some right ∧
      branch.2.Answered left right branch'.2

theorem firstFrom_eq {lefts rights : List Resolver} {branches branches' : List (Nat × Signal)}
    (same : Branches lefts rights branches branches') (name : String) (start : Cursor)
    (parsingFailed : Bool) (tally : Tally) (context : Context) :
    firstFrom name start parsingFailed lefts branches tally context =
      firstFrom name start parsingFailed rights branches' tally context := by
  induction same generalizing tally context with
  | nil => rfl
  | @cons branch branch' _ _ head _ ih =>
    obtain ⟨index, signal⟩ := branch
    obtain ⟨index', signal'⟩ := branch'
    obtain ⟨rfl, left, right, atLeft, atRight, answered⟩ := head
    unfold firstFrom
    simp only [atLeft, atRight, answered.resolve, ih]

end

end Resolution

namespace Argument

variable {σ : Type}

/-- Nobody who reads, resolves or completes the arguments can tell them apart. -/
structure Same (left right : Argument σ) : Prop where
  info : left.info = right.info
  read : ∀ input mode context cursor,
    (left.read input mode context cursor).Matches (left.resolve input) (right.resolve input)
      (right.read input mode context cursor)
  complete : ∀ input, left.complete input = right.complete input

namespace Same

theorem refl (argument : Argument σ) : argument.Same argument :=
  ⟨rfl, fun _ _ _ _ => .refl .., fun _ => rfl⟩

theorem name {left right : Argument σ} (h : left.Same right) : left.name = right.name :=
  congrArg Info.name h.info

end Same

end Argument

structure Tally.Matches (lefts rights : List Resolver) (left right : Tally) : Prop where
  deferred : Resolution.Branches lefts rights left.deferred right.deferred
  others : { right with deferred := left.deferred } = left

namespace Tally.Matches

variable {lefts rights : List Resolver} {left right : Tally}

theorem addAbsent (h : left.Matches lefts rights right) :
    left.addAbsent.Matches lefts rights right.addAbsent := by
  obtain ⟨deferred, others⟩ := h
  rw [← others] at deferred ⊢
  exact ⟨deferred, rfl⟩

theorem addError (h : left.Matches lefts rights right) (cause : ArgumentError) :
    (left.addError cause).Matches lefts rights (right.addError cause) := by
  obtain ⟨deferred, others⟩ := h
  rw [← others] at deferred ⊢
  unfold Tally.addError
  split <;> exact ⟨deferred, rfl⟩

theorem addDeferred (h : left.Matches lefts rights right) {index : Nat} {signal signal' : Signal}
    {resolver resolver' : Resolver} (atLeft : lefts[index]? = some resolver)
    (atRight : rights[index]? = some resolver')
    (same : signal.Answered resolver resolver' signal') :
    (left.addDeferred index signal).Matches lefts rights (right.addDeferred index signal') := by
  obtain ⟨deferred, others⟩ := h
  rw [← others] at deferred ⊢
  exact ⟨List.rel_append deferred (.cons ⟨rfl, _, _, atLeft, atRight, same⟩ .nil), rfl⟩

theorem outcome (h : left.Matches lefts rights right) (name : String) (context : Context)
    (cursor : Cursor) (events : List Event) :
    Reading.Matches (Resolution.firstOf name lefts) (Resolution.firstOf name rights)
      ⟨left.outcome name, context, cursor, events⟩
      ⟨right.outcome name, context, cursor, events⟩ := by
  obtain ⟨deferred, absent, rejected, failed⟩ := left
  obtain ⟨deferred', absent', rejected', failed'⟩ := right
  obtain ⟨branches, others⟩ := h
  cases others
  cases branches with
  | nil =>
    refine .decided fun signal sent => ?_
    have noneWaits : (Tally.mk [] absent' rejected' failed').deferred = [] := rfl
    rcases decided noneWaits name with none | ⟨cause, failed⟩
    · cases none.symm.trans sent
    · cases failed.symm.trans sent
  | @cons first first' rest rest' head others =>
    obtain ⟨index, signal⟩ := first
    obtain ⟨index', signal'⟩ := first'
    obtain ⟨same, resolver, resolver', -, -, answered⟩ := id head
    cases same
    -- The first of the branches has the root cause of the whole signal.
    refine .deferred ⟨answered.rootCause, fun context cursor parsingFailed => ?_⟩
    exact Resolution.firstFrom_eq (.cons head others) ..

end Tally.Matches

namespace Argument

variable {σ : Type}

theorem matches_firstFrom {input : Input σ} {mode : Mode} {members members' : List (Argument σ)}
    (same : List.Forall₂ Same members members') (front front' : List Resolver)
    (level : front.length = front'.length) {tally tally' : Tally}
    (tallies : tally.Matches (front ++ resolvers input members)
      (front' ++ resolvers input members') tally') (name : String)
    (context : Context) (cursor : Cursor) :
    Reading.Matches (Resolution.firstOf name (front ++ resolvers input members))
      (Resolution.firstOf name (front' ++ resolvers input members'))
      (Reading.firstFrom name cursor front.length tally (readers input mode members) context)
      (Reading.firstFrom name cursor front.length tally' (readers input mode members')
        context) := by
  -- In front are the resolvers of those already read, whom the tallies lead to.
  induction same generalizing front front' tally tally' context with
  | nil => exact tallies.outcome name context cursor []
  | @cons member member' rest rest' head _ ih =>
    have others := @ih (front ++ [member.resolve input]) (front' ++ [member'.resolve input])
      (by simp [level])
    simp only [List.append_assoc, List.length_append] at others
    have atLeft : (front ++ resolvers input (member :: rest))[front.length]? =
        some (member.resolve input) := by
      simp [resolvers]
    have atRight : (front' ++ resolvers input (member' :: rest'))[front.length]? =
        some (member'.resolve input) := by
      simp [resolvers, level]
    unfold Reading.firstFrom readers
    dsimp only
    refine (head.read input mode context cursor).elim (fun {reading} settled => ?_) fun same => ?_
    · obtain ⟨outcome, context, cursor, events⟩ := reading
      cases outcome with
      | ok value =>
        cases value with
        | none => exact (others tallies.addAbsent context).after _
        | some value => exact .decided (.of_ok rfl)
      | error failure =>
        cases failure with
        | error cause => exact (others (tallies.addError cause) context).after _
        | deferred signal => exact absurd rfl (settled signal)
    · exact (others (tallies.addDeferred atLeft atRight same) _).after _

theorem inOrder_eq {input : Input σ} {parts parts' : List (Argument σ)}
    (same : List.Forall₂ Same parts parts') (context : Context) (cursor : Cursor) :
    Reading.inOrder (readers input .storing parts) context cursor =
      Reading.inOrder (readers input .storing parts') context cursor := by
  induction same generalizing context cursor with
  | nil => rfl
  | cons head _ ih =>
    unfold readers Reading.inOrder
    dsimp only
    refine (head.read input .storing context cursor).elim (fun _ => ?_) fun same => ?_
    · simp only [ih]
    · simp only [Failure.rootCause, same.rootCause]

theorem completion_inOrder_eq {input : Input σ} {parts parts' : List (Argument σ)}
    (same : List.Forall₂ Same parts parts') (limit : Nat) (context : Context) (cursor : Cursor)
    (found : List String) :
    Completion.inOrder limit (completionParts input parts) context cursor found =
      Completion.inOrder limit (completionParts input parts') context cursor found := by
  induction same generalizing context cursor found with
  | nil => rfl
  | cons head _ ih =>
    have read := head.read input .storing context cursor
    unfold completionParts Completion.inOrder
    simp only [read.isOk, read.context, read.cursor, read.events, head.complete, ih]

theorem identifier_eq {left right : Argument σ} (h : left.Same right) (rules : IdRules σ)
    (input : Input σ) :
    Reading.identifier rules input (left.read input .viewing) =
      Reading.identifier rules input (right.read input .viewing) := by
  funext context cursor
  unfold Reading.identifier
  dsimp only
  refine (h.read input .viewing context cursor).elim (fun _ => rfl) fun same => ?_
  simp only [Failure.rootCause, same.rootCause]

theorem completion_identifier_eq {left right : Argument σ} (h : left.Same right)
    (rules : IdRules σ) (input : Input σ) :
    Completion.identifier rules input (left.read input .viewing) =
      Completion.identifier rules input (right.read input .viewing) := by
  funext context cursor
  have read := h.read input .viewing context cursor
  unfold Completion.identifier
  simp only [read.isOk, read.cursor, read.events]

namespace Same

theorem infos {members members' : List (Argument σ)} (same : List.Forall₂ Same members members') :
    infos members = infos members' := by
  induction same with
  | nil => rfl
  | cons head _ ih => rw [Argument.infos, Argument.infos, head.info, ih]

theorem completers {members members' : List (Argument σ)}
    (same : List.Forall₂ Same members members') (input : Input σ) :
    completers input members = completers input members' := by
  induction same with
  | nil => rfl
  | cons head _ ih => rw [Argument.completers, Argument.completers, head.complete, ih]

variable {left right left' right' : Argument σ}

theorem optional (h : left.Same right) : (optional left).Same (.optional right) where
  info := congrArg Info.omittable h.info
  read input mode context cursor := by
    rw [Argument.read, Argument.read, ← h.name]
    exact (h.read input mode context cursor).orAbsent _ cursor
      fun same => Resolution.answered_orAbsent same _
  complete := h.complete

theorem named (h : left.Same right) : (named left).Same (.named right) where
  info := congrArg Info.named h.info
  read input mode context cursor := by
    have display : left.display = right.display := congrArg Info.display h.info
    rw [Argument.read, Argument.read, Argument.resolve, Argument.resolve, ← h.name, ← h.info,
      ← display]
    exact (Reading.matches_stripped (h.read input mode context) _ _ context cursor).wrapped _
      fun same => Resolution.answered_named same ..
  complete input := by
    rw [Argument.complete, Argument.complete, h.info, h.complete]

theorem mapped (h : left.Same right) (mapping : Value → Except ArgumentError Value) :
    (mapped left mapping).Same (.mapped right mapping) where
  info := h.info
  read input mode context cursor := by
    rw [Argument.read, Argument.read, Argument.resolve, Argument.resolve, ← h.name]
    exact ((h.read input .viewing context cursor).mapped _ mapping
      fun same => Resolution.answered_mapped same ..).kept mode _
  complete := h.complete

theorem fallback (h : left.Same right) (ofProducer : left'.Same right') :
    (fallback left left').Same (.fallback right right') where
  info := congrArg₂ Info.withProducer h.info ofProducer.info
  read input mode context cursor := by
    have waits : left.isFallback = right.isFallback := congrArg Info.fallback h.info
    obtain ⟨own, layer⟩ := Resolution.answered_fallback left.isFallback
      (fun context cursor => (ofProducer.read input .viewing context cursor).settled)
      (fun context cursor => (h.read input .storing context cursor).settled) left.name
    rw [Argument.read, Argument.read, Argument.resolve, Argument.resolve, ← h.name, ← waits]
    exact (h.read input mode context cursor).postponed _ own layer
  complete input := by
    rw [Argument.complete, Argument.complete, h.complete, ofProducer.complete]

theorem sequence {parts parts' : List (Argument σ)} (same : List.Forall₂ Same parts parts')
    (label : Label) (compute : Context → Except ArgumentError Value) (joinsFormats : Bool) :
    (sequence label parts compute joinsFormats).Same (.sequence label parts' compute joinsFormats)
    where
  info := by rw [Argument.info, Argument.info, infos same]
  read input mode context cursor := by
    -- Whatever a part puts off is settled at once, so the two read the same.
    have sequenced : (Argument.sequence label parts compute joinsFormats).read input mode context
        cursor = (Argument.sequence label parts' compute joinsFormats).read input mode context
        cursor := by
      simp only [Argument.read, Reading.sequence, inOrder_eq same]
    rw [sequenced]
    exact .decided (Reading.decided_sequence mode _ compute _)
  complete input := by
    funext context cursor
    exact completion_inOrder_eq same ..

theorem firstOf {members members' : List (Argument σ)} (same : List.Forall₂ Same members members')
    (label : Label) (style : AlternationStyle) :
    (firstOf label members style).Same (.firstOf label members' style) where
  info := by rw [Argument.info, Argument.info, infos same]
  read input mode context cursor := by
    rw [Argument.resolve, Argument.resolve]
    have tallies : Tally.empty.Matches (resolvers input members) (resolvers input members')
        .empty := ⟨.nil, rfl⟩
    exact (matches_firstFrom same [] [] rfl tallies label.name context cursor).kept mode label.name
  complete input := by
    rw [Argument.complete, Argument.complete, completers same]

theorem objectId (h : left.Same right) (rules : IdRules σ) :
    (objectId rules left).Same (.objectId rules right) where
  info := rfl
  read input mode context cursor := by
    rw [Argument.read, Argument.read, identifier_eq h]
    exact .decided ((Reading.decided_identifier rules input _).kept mode _)
  complete input := completion_identifier_eq h rules input

theorem objectById (h : left.Same right) (rules : ObjectRules σ) (id : IdRules σ) :
    (objectById rules id left).Same (.objectById rules id right) where
  info := rfl
  read input mode context cursor := by
    rw [Argument.read, Argument.read, identifier_eq h]
    exact .decided ((Reading.decided_object rules _ input _).kept mode _)
  complete input := completion_identifier_eq h id input

end Same

/-- A tree of arguments with one place left open. -/
inductive Place (σ : Type) where
  | here
  | optional (below : Place σ)
  | named (below : Place σ)
  | mapped (below : Place σ) (mapping : Value → Except ArgumentError Value)
  | primary (below : Place σ) (other : Argument σ)
  | producer (other : Argument σ) (below : Place σ)
  | part (label : Label) (before : List (Argument σ)) (below : Place σ)
    (behind : List (Argument σ)) (compute : Context → Except ArgumentError Value)
    (joinsFormats : Bool)
  | alternative (label : Label) (before : List (Argument σ)) (below : Place σ)
    (behind : List (Argument σ)) (style : AlternationStyle)
  | objectId (rules : IdRules σ) (below : Place σ)
  | objectById (rules : ObjectRules σ) (id : IdRules σ) (below : Place σ)

def Place.fill (argument : Argument σ) : Place σ → Argument σ
  | .here => argument
  | .optional below => .optional (below.fill argument)
  | .named below => .named (below.fill argument)
  | .mapped below mapping => .mapped (below.fill argument) mapping
  | .primary below other => .fallback (below.fill argument) other
  | .producer other below => .fallback other (below.fill argument)
  | .part label before below behind compute joinsFormats =>
    .sequence label (before ++ below.fill argument :: behind) compute joinsFormats
  | .alternative label before below behind style =>
    .firstOf label (before ++ below.fill argument :: behind) style
  | .objectId rules below => .objectId rules (below.fill argument)
  | .objectById rules id below => .objectById rules id (below.fill argument)

theorem Same.among {left right : Argument σ} (h : left.Same right)
    (before behind : List (Argument σ)) :
    List.Forall₂ Same (before ++ left :: behind) (before ++ right :: behind) :=
  List.rel_append (List.forall₂_same.mpr fun argument _ => .refl argument)
    (.cons h (List.forall₂_same.mpr fun argument _ => .refl argument))

theorem Same.fill {left right : Argument σ} (h : left.Same right) (place : Place σ) :
    (place.fill left).Same (place.fill right) := by
  induction place with
  | here => exact h
  | optional below ih => exact ih.optional
  | named below ih => exact ih.named
  | mapped below mapping ih => exact ih.mapped mapping
  | primary below other ih => exact ih.fallback (.refl other)
  | producer other below ih => exact (Same.refl other).fallback ih
  | part label before below behind compute joinsFormats ih =>
    exact .sequence (ih.among before behind) label compute joinsFormats
  | alternative label before below behind style ih =>
    exact .firstOf (ih.among before behind) label style
  | objectId rules below ih => exact ih.objectId rules
  | objectById rules id below ih => exact ih.objectById rules id

end Argument

end CommandLine
