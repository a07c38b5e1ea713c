import CommandLine.Argument.Build
import CommandLine.Argument.Resolve
import CommandLine.Proofs.Backtracking
import CommandLine.Proofs.Fitting
import Mathlib.Data.List.Induction

/-! Several sources for the value of one argument.

An argument may have any number of sources behind it, each added around those
before it. When it is resolved they are asked from the inside out, and the first
that has a value decides. If none has, it is the outermost one that tells why,
unless it only lacks input or the right invoker: then the argument itself does.
-/

set_option autoImplicit false

namespace CommandLine

variable {σ : Type}

inductive Supply (σ : Type) where
  | default (value : Value)
  | invoker (kind : String) (project : σ → Option Value)
  | targeted (lookup : Input σ → Context → Except ArgumentError Value)

namespace Supply

def answer (supply : Supply σ) (display : String) (input : Input σ) (context : Context) :
    Except ArgumentError Value :=
  match supply with
  | .default value => .ok value
  | .invoker kind project =>
    match project input.invoker with
    | none => .error (.requiresInvoker display kind)
    | some value => .ok value
  | .targeted lookup => lookup input context

def firstValue? (supplies : List (Supply σ)) (display : String) (input : Input σ)
    (context : Context) : Option Value :=
  supplies.findSome? fun supply => (supply.answer display input context).toOption

end Supply

namespace Argument

def orSupply (primary : Argument σ) : Supply σ → Argument σ
  | .default value => primary.orDefault value
  | .invoker kind project => primary.orInvoker kind project
  | .targeted lookup => primary.orTargeted lookup

/-- The argument with sources behind it, of which the first is the innermost. -/
def supplied (primary : Argument σ) (supplies : List (Supply σ)) : Argument σ :=
  supplies.foldl orSupply primary

@[simp] theorem supplied_append_singleton (primary : Argument σ) (supplies : List (Supply σ))
    (last : Supply σ) :
    primary.supplied (supplies ++ [last]) = (primary.supplied supplies).orSupply last := by
  simp [supplied, List.foldl_append]

theorem orSupply_eq_fallback (primary : Argument σ) (supply : Supply σ) :
    ∃ producer, primary.orSupply supply = .fallback primary producer ∧
      ∀ (input : Input σ) (context : Context) (cursor : Cursor),
        producer.read input .viewing context cursor =
          Reading.produced (supply.answer primary.display input context) context cursor := by
  cases supply with
  | default value => exact ⟨_, rfl, fun _ _ _ => rfl⟩
  | targeted lookup => exact ⟨_, rfl, fun _ _ _ => rfl⟩
  | invoker kind project =>
    refine ⟨_, rfl, fun input context cursor => ?_⟩
    show Reading.fromInvoker primary.display kind (project input.invoker) context cursor = _
    cases came : project input.invoker <;> simp only [Reading.fromInvoker, Supply.answer, came]

theorem name_orSupply (primary : Argument σ) (supply : Supply σ) :
    (primary.orSupply supply).name = primary.name := by
  cases supply <;> rfl

theorem display_orSupply (primary : Argument σ) (supply : Supply σ) :
    (primary.orSupply supply).display = primary.display := by
  cases supply <;> rfl

theorem isFallback_orSupply (primary : Argument σ) (supply : Supply σ) :
    (primary.orSupply supply).isFallback = true := by
  cases supply <;> rfl

@[simp] theorem name_supplied (primary : Argument σ) (supplies : List (Supply σ)) :
    (primary.supplied supplies).name = primary.name := by
  induction supplies using List.reverseRecOn with
  | nil => rfl
  | append_singleton earlier last ih => rw [supplied_append_singleton, name_orSupply, ih]

@[simp] theorem display_supplied (primary : Argument σ) (supplies : List (Supply σ)) :
    (primary.supplied supplies).display = primary.display := by
  induction supplies using List.reverseRecOn with
  | nil => rfl
  | append_singleton earlier last ih => rw [supplied_append_singleton, display_orSupply, ih]

end Argument

namespace Reading

theorem postponed_sent_cases {reading : Reading} {name : String} {signal : Signal}
    (sent : (reading.postponed name).outcome = .error (.deferred signal)) :
    (∃ cause, reading.outcome = .error (.error cause) ∧ signal = .raised name cause) ∨
      ∃ inner, reading.outcome = .error (.deferred inner) ∧ signal = .wrapped name inner := by
  unfold postponed at sent
  split at sent
  next value came =>
    rw [came] at sent
    cases sent
  next cause came =>
    cases sent
    exact .inl ⟨cause, came, rfl⟩
  next inner came =>
    cases sent
    exact .inr ⟨inner, came, rfl⟩

theorem postponed_of_error {reading : Reading} {failure : Failure}
    (came : reading.outcome = .error failure) (name : String) :
    ∃ signal, (reading.postponed name).outcome = .error (.deferred signal) ∧
      signal.rootCause = failure.rootCause := by
  cases failure with
  | error cause => exact ⟨.raised name cause, by simp only [postponed, came], rfl⟩
  | deferred inner => exact ⟨.wrapped name inner, by simp only [postponed, came], rfl⟩

end Reading

namespace Argument

theorem read_supplied_of_error {input : Input σ} {primary : Argument σ} {mode : Mode}
    {context : Context} {cursor : Cursor} {failure : Failure}
    (fails : (primary.read input mode context cursor).outcome = .error failure)
    (supplies : List (Supply σ)) :
    ∃ later, ((primary.supplied supplies).read input mode context cursor).outcome = .error later ∧
      later.rootCause = failure.rootCause := by
  induction supplies using List.reverseRecOn with
  | nil => exact ⟨failure, fails, rfl⟩
  | append_singleton earlier last ih =>
    obtain ⟨inner, came, same⟩ := ih
    obtain ⟨producer, eq, -⟩ := (primary.supplied earlier).orSupply_eq_fallback last
    obtain ⟨signal, sent, cause⟩ :=
      Reading.postponed_of_error came (primary.supplied earlier).name
    rw [supplied_append_singleton, eq]
    exact ⟨.deferred signal, sent, cause.trans same⟩

end Argument

namespace Supply

/-- What resolving `primary` comes to where `supplies` are asked and `last` is the outermost of
them: the first value is stored, and without any the context stays as it was. -/
def Decides (supplies : List (Supply σ)) (last : Supply σ) (primary : Argument σ)
    (input : Input σ) (context : Context) (cursor : Cursor) (otherwise : ArgumentError)
    (resolution : Resolution) : Prop :=
  match firstValue? supplies primary.display input context with
  | some value =>
    resolution.outcome = .ok (some value) ∧
      resolution.context = context.put primary.name value ∧ resolution.cursor = cursor
  | none =>
    ∃ refusal, last.answer primary.display input context = .error refusal ∧
      resolution.outcome = .error (if refusal.isCircumstantial then otherwise else refusal) ∧
      resolution.context = context

theorem firstValue?_append_singleton (earlier : List (Supply σ)) (last : Supply σ)
    (display : String) (input : Input σ) (context : Context) :
    firstValue? (earlier ++ [last]) display input context =
      (firstValue? earlier display input context).or
        (last.answer display input context).toOption := by
  rw [firstValue?, List.findSome?_append, List.findSome?_singleton]
  rfl

section

variable {primary : Argument σ} {input : Input σ} {context : Context} {cursor : Cursor}
  {supplies : List (Supply σ)} {last : Supply σ} {otherwise : ArgumentError}

theorem Decides.after {resolution : Resolution}
    (h : Decides supplies last primary input context cursor otherwise resolution)
    (earlier : List Event) :
    Decides supplies last primary input context cursor otherwise (resolution.after earlier) :=
  h

theorem decides_produce {producer again : Reader} {signal : Signal} {parsingFailed : Bool}
    {failure : Failure} (produces : producer context cursor =
      Reading.produced (last.answer primary.display input context) context cursor)
    (fails : (again context cursor).outcome = .error failure)
    (keeps : (again context cursor).context = context)
    (unsupplied : firstValue? supplies primary.display input context = none) :
    Decides (supplies ++ [last]) last primary input context cursor
      (if parsingFailed then signal.rootCause else failure.rootCause)
      (Resolution.produce primary.name producer again context cursor signal parsingFailed) := by
  unfold Decides Resolution.produce
  rw [firstValue?_append_singleton, unsupplied, produces]
  cases answered : last.answer primary.display input context with
  | ok value => exact ⟨rfl, rfl, rfl⟩
  | error refusal =>
    refine ⟨refusal, rfl, ?_⟩
    by_cases circumstantial : refusal.isCircumstantial = true
    · cases parsingFailed with
      | true => simp [Reading.produced, Attempt.fail, Failure.rootCause, circumstantial]
      | false =>
        -- Only here is the argument read once more.
        simp [Reading.produced, Attempt.fail, Failure.rootCause, circumstantial, Reading.settled,
          Attempt.mapError, fails, keeps]
    · simp [Reading.produced, Attempt.fail, Failure.rootCause, circumstantial]

end

end Supply

namespace Argument

variable {primary : Argument σ} {asked input : Input σ} {mode : Mode} {before context : Context}
  {stood cursor : Cursor} {signal : Signal} {failure : Failure}

/-- The outermost source is asked where those below it have no value. -/
theorem decides_produce_supplied
    (fails : (primary.read input .storing context cursor).outcome = .error failure)
    {earlier : List (Supply σ)} {last : Supply σ} {producer : Argument σ}
    (produces : producer.read input .viewing context cursor = Reading.produced
      (last.answer (primary.supplied earlier).display input context) context cursor)
    (unsupplied : Supply.firstValue? earlier primary.display input context = none)
    (signal : Signal) (parsingFailed : Bool) :
    Supply.Decides (earlier ++ [last]) last primary input context cursor
      (if parsingFailed then signal.rootCause else failure.rootCause)
      (Resolution.produce (primary.supplied earlier).name (producer.read input .viewing)
        ((primary.supplied earlier).read input .storing) context cursor signal parsingFailed) := by
  obtain ⟨later, again, cause⟩ := read_supplied_of_error fails earlier
  have keeps := (backtracks_read input .storing (primary.supplied earlier) context cursor).failed _
    again
  rw [display_supplied] at produces
  rw [name_supplied, ← cause]
  exact Supply.decides_produce produces again keeps unsupplied

theorem decides_supplied (steady : primary.isFallback = false)
    (fails : (primary.read input .storing context cursor).outcome = .error failure)
    (earlier : List (Supply σ)) (last : Supply σ)
    (sent : ((primary.supplied (earlier ++ [last])).read asked mode before stood).outcome =
      .error (.deferred signal)) (parsingFailed : Bool) :
    Supply.Decides (earlier ++ [last]) last primary input context cursor
      (if parsingFailed then signal.rootCause else failure.rootCause)
      ((primary.supplied (earlier ++ [last])).resolve input context cursor signal
        parsingFailed) := by
  -- Each level takes its layer off the signal, asks those below, and then its own source.
  induction earlier using List.reverseRecOn generalizing last signal with
  | nil =>
    obtain ⟨producer, eq, reads⟩ := (primary.supplied []).orSupply_eq_fallback last
    rw [supplied_append_singleton, eq] at sent ⊢
    rcases Reading.postponed_sent_cases sent with ⟨cause, -, rfl⟩ | ⟨inner, waits, -⟩
    · exact decides_produce_supplied fails (reads ..) rfl _ _
    · exact absurd waits (decided_read asked steady mode before stood inner)
  | append_singleton earlier middle ih =>
    obtain ⟨producer, eq, reads⟩ :=
      (primary.supplied (earlier ++ [middle])).orSupply_eq_fallback last
    rw [supplied_append_singleton, eq] at sent ⊢
    rcases Reading.postponed_sent_cases sent with ⟨cause, refuses, -⟩ | ⟨inner, waits, rfl⟩
    · -- With a source behind it, the argument below never refuses at once.
      obtain ⟨below, same, -⟩ := (primary.supplied earlier).orSupply_eq_fallback middle
      rw [supplied_append_singleton, same] at refuses
      exact absurd refuses (Reading.postponed_ne_error _ _ cause)
    · have chained := ih middle waits
      have waiting : (primary.supplied (earlier ++ [middle])).isFallback = true := by
        rw [supplied_append_singleton]
        exact isFallback_orSupply _ middle
      show Supply.Decides _ _ _ _ _ _ _ (Resolution.fallback _ (if _ then _ else none) _ _ _ _ _ _)
      rw [if_pos waiting]
      simp only [Resolution.fallback, Signal.inner?]
      unfold Supply.Decides at chained
      cases found : Supply.firstValue? (earlier ++ [middle]) primary.display input context with
      | some value =>
        simp only [found] at chained
        obtain ⟨came, stored, stands⟩ := chained
        rw [came]
        unfold Supply.Decides
        rw [Supply.firstValue?_append_singleton, found]
        exact ⟨came, stored, stands⟩
      | none =>
        simp only [found] at chained
        obtain ⟨refusal, -, came, keeps⟩ := chained
        rw [came, keeps]
        exact (decides_produce_supplied fails (reads ..) found inner parsingFailed).after _

/-- Wherever an argument with sources behind it cannot be read, resolving what it sent takes the
value of the first source that has one, from the inside out, and leaves the cursor where it was. If
none has a value, the last one tells why, unless it only lacks input or the right invoker: then it
is the error that was sent if the rest went wrong, and else the one that the argument has now. -/
theorem resolve_supplied (primary : Argument σ) (steady : primary.isFallback = false)
    (earlier : List (Supply σ)) (last : Supply σ)
    (sent : ((primary.supplied (earlier ++ [last])).read asked mode before stood).outcome =
      .error (.deferred signal))
    (input : Input σ) (context : Context) (cursor : Cursor)
    (fails : (primary.read input .storing context cursor).outcome = .error failure)
    (parsingFailed : Bool) :
    let supplies := earlier ++ [last]
    let resolution :=
      (primary.supplied supplies).resolve input context cursor signal parsingFailed
    (∀ value, Supply.firstValue? supplies primary.display input context = some value →
      resolution.outcome = .ok (some value) ∧
        resolution.context = context.put primary.name value ∧ resolution.cursor = cursor) ∧
    (Supply.firstValue? supplies primary.display input context = none →
      ∃ refusal, last.answer primary.display input context = .error refusal ∧
        resolution.context = context ∧
        resolution.outcome = .error
          (if refusal.isCircumstantial then
            if parsingFailed then signal.rootCause else failure.rootCause
          else refusal)) := by
  intro supplies resolution
  have law := decides_supplied steady fails earlier last sent parsingFailed
  unfold Supply.Decides at law
  constructor
  · intro value found
    simp only [supplies] at found
    simpa only [found] using law
  · intro none
    simp only [supplies] at none
    simp only [none] at law
    obtain ⟨refusal, answered, outcome, keeps⟩ := law
    exact ⟨refusal, answered, keeps, outcome⟩

def distance : Argument (Option Value) :=
  supplied (.integer ⟨"distance", none⟩ ⟨false, 32, false⟩)
    ([.invoker "scout" id] ++ [.targeted fun _ _ => .error (.missing "company")])

def distanceSignal : Signal :=
  .wrapped "distance" (.raised "distance" (.missing "distance"))

/-- Alone, and no scout, the invoker has to go by the distance itself. -/
theorem resolve_distance :
    (distance.read ⟨none, 20⟩ .storing .empty (.ofList [])).outcome =
        .error (.deferred distanceSignal) ∧
      (distance.resolve ⟨some (.text "9"), 20⟩ .empty (.ofList ["far"]) distanceSignal
        true).outcome = .ok (some (.text "9")) ∧
      (distance.resolve ⟨none, 20⟩ .empty (.ofList ["far"]) distanceSignal true).outcome =
        .error (.missing "distance") ∧
      (distance.resolve ⟨none, 20⟩ .empty (.ofList ["far"]) distanceSignal false).outcome =
        .error (.invalid "distance" "far" none) := by
  have sent : (distance.read ⟨none, 20⟩ .storing .empty (.ofList [])).outcome =
      .error (.deferred distanceSignal) := rfl
  have law (invoker : Option Value) (parsingFailed : Bool) :=
    resolve_supplied (.integer ⟨"distance", none⟩ ⟨false, 32, false⟩) rfl [.invoker "scout" id]
      (.targeted fun _ _ => .error (.missing "company")) sent ⟨invoker, 20⟩ .empty
      (.ofList ["far"]) rfl parsingFailed
  refine ⟨sent, ((law (some (.text "9")) true).1 _ rfl).1, ?_, ?_⟩
  · obtain ⟨refusal, answered, -, outcome⟩ := (law none true).2 rfl
    cases answered
    exact outcome
  · obtain ⟨refusal, answered, -, outcome⟩ := (law none false).2 rfl
    cases answered
    exact outcome

end Argument

end CommandLine
