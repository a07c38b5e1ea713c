import CommandLine.Proofs.Leftover
import CommandLine.Proofs.Refusal
import CommandLine.Proofs.Tokenless

/-! How an alternation decides between its members.

The first value counts. Where there is none, a member that waits makes the
alternation wait, one that is absent makes it absent, and only then does it fail,
with a rejection if there is one. Both passes follow this rule: reading asks all
members, and resolving those that it has listed, which is like reading them again.
Without a value only a default that a mapping refuses can be left behind.
-/

set_option autoImplicit false

namespace CommandLine

namespace Attempt

variable {ε ε' α : Type}

def silent (attempt : Attempt ε α) : Attempt ε α :=
  { attempt with events := [] }

theorem silent_mapError (attempt : Attempt ε α) (f : ε → ε') :
    (attempt.mapError f).silent = attempt.silent.mapError f := rfl

theorem eq_of_silent {left right : Attempt ε α} (same : left.silent = right.silent) :
    left.outcome = right.outcome ∧ left.context = right.context ∧ left.cursor = right.cursor := by
  obtain ⟨outcome, context, cursor, -⟩ := mk.inj same
  exact ⟨outcome, context, cursor⟩

theorem value?_eq_none {attempt : Attempt ε (Option α)} (nothing : attempt.value?.isSome = false)
    (value : α) : attempt.outcome ≠ .ok (some value) := by
  intro came
  rw [value?_eq_some.mpr came] at nothing
  cases nothing

end Attempt

abbrev Outcome := Except Failure (Option Value)

namespace Outcome

def signal? : Outcome → Option Signal
  | .error (.deferred signal) => some signal
  | _ => none

def cause? : Outcome → Option ArgumentError
  | .error (.error cause) => some cause
  | _ => none

def isAbsent : Outcome → Bool
  | .ok none => true
  | _ => false

def waiting (first : Nat) (outcomes : List Outcome) : List (Nat × Signal) :=
  (outcomes.zipIdx first).filterMap fun entry => entry.1.signal?.map (entry.2, ·)

def causes (outcomes : List Outcome) : List ArgumentError :=
  outcomes.filterMap cause?

theorem any_isAbsent {outcomes : List Outcome} :
    outcomes.any isAbsent = true ↔ .ok none ∈ outcomes := by
  have absent (outcome : Outcome) : outcome.isAbsent = true ↔ outcome = .ok none := by
    unfold isAbsent
    split
    next => simp
    next other => simpa using other
  simp [absent]

/-- What members without a value make of their alternation. -/
inductive Precedence (name : String) (outcomes : List Outcome) : Outcome → Prop where
  | deferred {index : Nat} {signal : Signal} {others : List (Nat × Signal)}
    (listed : waiting 0 outcomes = (index, signal) :: others) :
    Precedence name outcomes (.error (.deferred (.branched name index signal others)))
  | absent (decided : waiting 0 outcomes = []) (absent : .ok none ∈ outcomes) :
    Precedence name outcomes (.ok none)
  | rejected {cause : ArgumentError} (decided : waiting 0 outcomes = [])
    (present : .ok none ∉ outcomes)
    (first : (causes outcomes).find? (·.isRejection) = some cause) :
    Precedence name outcomes (.error (.error cause))
  | failed {cause : ArgumentError} (decided : waiting 0 outcomes = [])
    (present : .ok none ∉ outcomes)
    (noRejection : ∀ cause ∈ causes outcomes, cause.isRejection = false)
    (first : (causes outcomes).head? = some cause) :
    Precedence name outcomes (.error (.error cause))

theorem Precedence.valueless {name : String} {outcomes : List Outcome} {outcome : Outcome}
    (h : Precedence name outcomes outcome) (value : Value) : outcome ≠ .ok (some value) := by
  cases h <;> exact nofun

theorem waiting_eq_nil {first : Nat} {outcomes : List Outcome} :
    waiting first outcomes = [] ↔ ∀ outcome ∈ outcomes, outcome.signal? = none := by
  simp only [waiting, List.filterMap_eq_nil_iff, Option.map_eq_none_iff]
  constructor
  · intro decided outcome member
    obtain ⟨index, inside, rfl⟩ := List.mem_iff_getElem.mp member
    exact decided _ (List.mk_add_mem_zipIdx_iff_getElem?.mpr (List.getElem?_eq_getElem inside))
  · intro decided entry inside
    exact decided _ (List.fst_mem_of_mem_zipIdx inside)

theorem causes_append (outcomes more : List Outcome) :
    causes (outcomes ++ more) = causes outcomes ++ causes more :=
  List.filterMap_append

end Outcome

open Outcome

/-- How an alternation decides between the attempts at its members: without a value the cursor is
back at the start, and `left` is the context. -/
structure TieBreak (name : String) (mode : Mode) (attempts : List Reading) (start : Cursor)
    (left : Context) (decision : Reading) : Prop where
  value : ∀ chosen, attempts.find? (·.value?.isSome) = some chosen →
    decision.outcome = chosen.outcome ∧ decision.context = (chosen.kept mode name).context ∧
      decision.cursor = chosen.cursor
  otherwise : attempts.find? (·.value?.isSome) = none →
    Precedence name (attempts.map (·.outcome)) decision.outcome ∧ decision.context = left ∧
      decision.cursor = start

namespace TieBreak

variable {name : String} {mode : Mode} {attempts attempts' : List Reading} {start : Cursor}
  {left left' : Context} {decision decision' : Reading}

theorem of_silent (h : TieBreak name mode attempts start left decision)
    (same : Attempt.silent decision' = Attempt.silent decision) :
    TieBreak name mode attempts start left decision' := by
  obtain ⟨outcome, context, cursor⟩ := Attempt.eq_of_silent same
  constructor
  · rw [outcome, context, cursor]
    exact h.value
  · rw [outcome, context, cursor]
    exact h.otherwise

/-- What members behind the first value would come to makes no difference. -/
theorem of_found (h : TieBreak name mode attempts start left decision)
    (found : attempts.find? (·.value?.isSome) = attempts'.find? (·.value?.isSome))
    (same : attempts.find? (·.value?.isSome) = none → attempts = attempts' ∧ left = left') :
    TieBreak name mode attempts' start left' decision := by
  refine ⟨fun chosen first => h.value chosen (found.trans first), fun nothing => ?_⟩
  obtain ⟨rfl, rfl⟩ := same (found.trans nothing)
  exact h.otherwise nothing

theorem isSome_find? (h : TieBreak name mode attempts start left decision) :
    (attempts.find? (·.value?.isSome)).isSome = decision.value?.isSome := by
  cases found : attempts.find? (·.value?.isSome) with
  | some chosen =>
    have own := List.find?_some found
    rw [Attempt.value?, (h.value chosen found).1, ← Attempt.value?]
    exact own.symm
  | none =>
    have valueless := (h.otherwise found).1.valueless
    cases value : decision.value? with
    | none => rfl
    | some came => exact absurd (Attempt.value?_eq_some.mp value) (valueless came)

theorem valueless (h : TieBreak name mode attempts start left decision) {signal : Signal}
    (sent : decision.outcome = .error (.deferred signal)) :
    attempts.find? (·.value?.isSome) = none := by
  rw [← Option.not_isSome_iff_eq_none, h.isSome_find?, Attempt.value?, sent]
  exact Bool.false_ne_true

theorem listed (h : TieBreak name mode attempts start left decision) {signal : Signal}
    (sent : decision.outcome = .error (.deferred signal)) :
    ∃ index first others, signal = .branched name index first others ∧
      waiting 0 (attempts.map (·.outcome)) = (index, first) :: others := by
  obtain ⟨precedence, -, -⟩ := h.otherwise (h.valueless sent)
  rw [sent] at precedence
  cases precedence with
  | deferred listed => exact ⟨_, _, _, rfl, listed⟩

end TieBreak

namespace Tally

def sum (outcomes : List Outcome) : Tally where
  deferred := waiting 0 outcomes
  absent := outcomes.any isAbsent
  rejected := (causes outcomes).find? (·.isRejection)
  failed := (causes outcomes).find? (!·.isRejection)

variable (outcomes : List Outcome)

theorem sum_absent : sum (outcomes ++ [.ok none]) = (sum outcomes).addAbsent := by
  simp [sum, addAbsent, waiting, causes, List.zipIdx_append, signal?, cause?, isAbsent]

theorem sum_deferred (signal : Signal) :
    sum (outcomes ++ [.error (.deferred signal)]) =
      (sum outcomes).addDeferred outcomes.length signal := by
  simp [sum, addDeferred, waiting, causes, List.zipIdx_append, signal?, cause?, isAbsent]

theorem sum_error (cause : ArgumentError) :
    sum (outcomes ++ [.error (.error cause)]) = (sum outcomes).addError cause := by
  unfold addError
  split
  next rejection =>
    simp [sum, waiting, causes, List.zipIdx_append, signal?, cause?, isAbsent, rejection]
  next other =>
    simp [sum, waiting, causes, List.zipIdx_append, signal?, cause?, isAbsent, other]

theorem decided {tally : Tally} (noneWaits : tally.deferred = []) (name : String) :
    tally.outcome name = .ok none ∨ ∃ cause, tally.outcome name = .error (.error cause) := by
  unfold Tally.outcome
  rw [noneWaits]
  dsimp only
  split
  · exact .inl rfl
  · cases tally.rejected.or tally.failed with
    | none => exact .inl rfl
    | some cause => exact .inr ⟨cause, rfl⟩

theorem precedence_sum (name : String) {outcomes : List Outcome} (nonempty : outcomes ≠ [])
    (valueless : ∀ outcome ∈ outcomes, ∀ value, outcome ≠ .ok (some value)) :
    Precedence name outcomes ((sum outcomes).outcome name) := by
  unfold Tally.outcome sum
  dsimp only
  split
  next listed => exact .deferred listed
  next decided =>
    split
    next absent => exact .absent decided (any_isAbsent.mp absent)
    next present =>
      rw [any_isAbsent] at present
      cases rejection : (causes outcomes).find? (·.isRejection) with
      | some cause => exact .rejected decided present rejection
      | none =>
        have noRejection : ∀ cause ∈ causes outcomes, cause.isRejection = false := by
          simpa using rejection
        cases came : causes outcomes with
        | nil =>
          -- Somebody was asked, and can only have had a value.
          obtain ⟨outcome, member⟩ := List.exists_mem_of_ne_nil outcomes nonempty
          have decides := waiting_eq_nil.mp decided outcome member
          have blameless := List.filterMap_eq_nil_iff.mp came outcome member
          match outcome with
          | .ok (some value) => exact absurd rfl (valueless _ member value)
          | .ok none => exact absurd member present
          | .error (.deferred signal) => cases decides
          | .error (.error cause) => cases blameless
        | cons cause others =>
          have first := noRejection cause (came ▸ List.mem_cons_self)
          simp only [List.find?_cons, first]
          exact .failed decided present noRejection (by rw [came, List.head?_cons])

end Tally

namespace Reading

/-- Each attempt starts where the first one did, in the context that those before it left. -/
def inTurn (start : Cursor) : List Reader → Context → List Reading
  | [], _ => []
  | reader :: rest, context =>
    reader context start :: inTurn start rest (reader context start).context

def leftBy (start : Cursor) (readers : List Reader) (context : Context) : Context :=
  readers.foldl (fun context reader => (reader context start).context) context

theorem silent_firstFrom (name : String) (start : Cursor) (readers : List Reader)
    (past : List Outcome) (context : Context) :
    (firstFrom name start past.length (.sum past) readers context).silent =
      Attempt.silent (((inTurn start readers context).find? (·.value?.isSome)).getD
        ⟨(Tally.sum (past ++ (inTurn start readers context).map (·.outcome))).outcome name,
          leftBy start readers context, start, []⟩) := by
  -- The tally is the sum of those already tried, one more of them with each reader.
  induction readers generalizing past context with
  | nil => simp [firstFrom, inTurn, leftBy, Attempt.silent]
  | cons reader rest ih =>
    have others := ih (past ++ [(reader context start).outcome]) (reader context start).context
    rw [List.append_assoc, List.singleton_append, List.length_append] at others
    unfold firstFrom inTurn
    dsimp only
    rw [List.find?_cons, List.map_cons]
    split
    next value came =>
      have found := Attempt.value?_eq_some.mpr came
      rw [found]
      rfl
    next came =>
      have nothing : (reader context start).value? = none := by rw [Attempt.value?, came]
      rw [came, Tally.sum_absent] at others
      rw [nothing, came]
      exact others
    next signal came =>
      have nothing : (reader context start).value? = none := by rw [Attempt.value?, came]
      rw [came, Tally.sum_deferred] at others
      rw [nothing, came]
      exact others
    next cause came =>
      have nothing : (reader context start).value? = none := by rw [Attempt.value?, came]
      rw [came, Tally.sum_error] at others
      rw [nothing, came]
      exact others

theorem silent_kept (reading : Reading) (mode : Mode) (name : String) :
    Attempt.silent (reading.kept mode name) = kept (Attempt.silent reading) mode name := by
  unfold kept Attempt.silent
  dsimp only
  split <;> rfl

theorem kept_outcome (tally : Tally) (name : String) (context : Context) (cursor : Cursor)
    (events : List Event) (mode : Mode) (other : String) :
    kept ⟨tally.outcome name, context, cursor, events⟩ mode other =
      ⟨tally.outcome name, context, cursor, events⟩ := by
  unfold kept
  split
  next value came => exact absurd came (tally.outcome_ne_some name value)
  next => rfl

theorem kept_eq {left right : Reading} (same : Attempt.silent left = Attempt.silent right)
    (mode : Mode) (name : String) :
    Attempt.silent (left.kept mode name) = Attempt.silent (right.kept mode name) := by
  rw [silent_kept, same, silent_kept]

section

variable (mode : Mode) (name : String) {readers : List Reader} {context : Context} {start : Cursor}

theorem silent_firstOf_of_found {chosen : Reading}
    (found : (inTurn start readers context).find? (·.value?.isSome) = some chosen) :
    Attempt.silent (firstOf mode name readers context start) =
      Attempt.silent (chosen.kept mode name) := by
  have told := silent_firstFrom name start readers [] context
  rw [found] at told
  exact kept_eq told mode name

theorem firstOf_of_valueless
    (nothing : (inTurn start readers context).find? (·.value?.isSome) = none) :
    let attempts := inTurn start readers context
    let reading := firstOf mode name readers context start
    reading.outcome = (Tally.sum (attempts.map (·.outcome))).outcome name ∧
      reading.context = leftBy start readers context ∧ reading.cursor = start := by
  have told := silent_firstFrom name start readers [] context
  rw [nothing] at told
  exact Attempt.eq_of_silent
    ((kept_eq told mode name).trans (congrArg Attempt.silent (kept_outcome ..)))

end

theorem valueless_of_find? {attempts : List Reading}
    (nothing : attempts.find? (·.value?.isSome) = none) :
    ∀ outcome ∈ attempts.map (·.outcome), ∀ value, outcome ≠ .ok (some value) := by
  refine List.forall_mem_map.mpr fun attempt member => Attempt.value?_eq_none ?_
  simpa using List.find?_eq_none.mp nothing attempt member

theorem inTurn_ne_nil {readers : List Reader} (nonempty : readers ≠ []) (start : Cursor)
    (context : Context) : (inTurn start readers context).map (·.outcome) ≠ [] := by
  cases readers with
  | nil => exact absurd rfl nonempty
  | cons => exact nofun

theorem tieBreak_firstOf (mode : Mode) (name : String) {readers : List Reader}
    (nonempty : readers ≠ []) (context : Context) (start : Cursor) :
    TieBreak name mode (inTurn start readers context) start (leftBy start readers context)
      (firstOf mode name readers context start) := by
  constructor
  · intro chosen found
    obtain ⟨outcome, context, cursor⟩ :=
      Attempt.eq_of_silent (silent_firstOf_of_found mode name found)
    exact ⟨outcome.trans (outcome_kept ..), context, cursor.trans (cursor_kept ..)⟩
  · intro nothing
    obtain ⟨outcome, left, back⟩ := firstOf_of_valueless mode name nothing
    refine ⟨?_, left, back⟩
    rw [outcome]
    exact Tally.precedence_sum name (inTurn_ne_nil nonempty start context)
      (valueless_of_find? nothing)

/-- Where an attempt without a value leaves the context alone, all might as well start in the same
one. -/
theorem inTurn_eq_map {start : Cursor} {readers : List Reader} {context : Context}
    (leaves : ∀ reader ∈ readers, (reader context start).value? = none →
      (reader context start).context = context) :
    (inTurn start readers context).find? (·.value?.isSome) =
        (readers.map (· context start)).find? (·.value?.isSome) ∧
      ((inTurn start readers context).find? (·.value?.isSome) = none →
        inTurn start readers context = readers.map (· context start) ∧
          leftBy start readers context = context) := by
  induction readers with
  | nil => exact ⟨rfl, fun _ => ⟨rfl, rfl⟩⟩
  | cons reader rest ih =>
    obtain ⟨first, others⟩ := List.forall_mem_cons.mp leaves
    obtain ⟨found, same⟩ := ih others
    simp only [inTurn, leftBy, List.foldl_cons, List.map_cons, List.find?_cons]
    cases value : (reader context start).value? with
    | some value => exact ⟨rfl, nofun⟩
    | none =>
      rw [first value]
      exact ⟨found, fun nothing => ⟨congrArg _ (same nothing).1, (same nothing).2⟩⟩

end Reading

/-- Answering to a signal, told as a reading: nothing can be put off any further. -/
def Resolver.answering (resolver : Resolver) (signal : Signal) (parsingFailed : Bool) : Reader :=
  fun context cursor => (resolver context cursor signal parsingFailed).mapError .error

namespace Resolution

def Answering (resolvers : List Resolver) (parsingFailed : Bool) :
    List (Nat × Signal) → List Reader → Prop :=
  List.Forall₂ fun branch reader => ∃ resolver, resolvers[branch.1]? = some resolver ∧
    reader = resolver.answering branch.2 parsingFailed

/-- Resolving branches is reading the answers of their members. -/
theorem silent_firstFrom {resolvers : List Resolver} {parsingFailed : Bool}
    {branches : List (Nat × Signal)} {answers : List Reader}
    (answering : Answering resolvers parsingFailed branches answers) (name : String)
    (start : Cursor) (index : Nat) {tally : Tally} (noneWaits : tally.deferred = [])
    (context : Context) :
    Attempt.silent ((firstFrom name start parsingFailed resolvers branches tally context).mapError
        Failure.error) =
      Attempt.silent ((Reading.firstFrom name start index tally answers context).kept .storing
        name) := by
  rw [Attempt.silent_mapError, Reading.silent_kept]
  -- The two count the members differently, which only the log and a deferral would tell.
  induction answering generalizing index tally context with
  | nil =>
    rcases Tally.decided noneWaits name with absent | ⟨cause, failed⟩
    · rw [firstFrom, Reading.firstFrom, absent]
      rfl
    · rw [firstFrom, Reading.firstFrom, failed]
      rfl
  | @cons branch reader branches answers head _ ih =>
    obtain ⟨resolver, member, rfl⟩ := head
    obtain ⟨index', signal⟩ := branch
    unfold firstFrom Reading.firstFrom
    simp only [member, Resolver.answering, Attempt.mapError]
    cases (resolver context start signal parsingFailed).outcome with
    | ok value =>
      cases value with
      | some value => rfl
      | none =>
        have still : tally.addAbsent.deferred = [] := noneWaits
        exact ih (index + 1) still _
    | error cause =>
      exact ih (index + 1) ((tally.deferred_addError cause).trans noneWaits) _

end Resolution

namespace Argument

variable {σ : Type}

def awaited (input : Input σ) (mode : Mode) (context : Context) (cursor : Cursor)
    (parsingFailed : Bool) (arguments : List (Argument σ)) : List Reader :=
  arguments.filterMap fun argument =>
    (signal? (argument.read input mode context cursor).outcome).map fun signal =>
      (argument.resolve input).answering signal parsingFailed

/-- The branches that are listed lead back to those that wait, whatever stands in front. -/
theorem answering_awaited (input : Input σ) (mode : Mode) (context : Context) (cursor : Cursor)
    (parsingFailed : Bool) (front : List Resolver) (arguments : List (Argument σ)) :
    Resolution.Answering (front ++ resolvers input arguments) parsingFailed
      (waiting front.length
        ((arguments.map (·.read input mode context cursor)).map (·.outcome)))
      (awaited input mode context cursor parsingFailed arguments) := by
  induction arguments generalizing front with
  | nil => exact .nil
  | cons argument rest ih =>
    have others := ih (front ++ [argument.resolve input])
    rw [List.length_append, List.append_assoc] at others
    unfold waiting awaited at others ⊢
    rw [List.map_cons, List.map_cons, List.zipIdx_cons, List.filterMap_cons, List.filterMap_cons]
    cases signal? (argument.read input mode context cursor).outcome with
    | none => exact others
    | some signal =>
      refine .cons ⟨argument.resolve input, ?_, rfl⟩ others
      simp [resolvers]

theorem context_of_valueless {input : Input σ} {mode : Mode} {argument : Argument σ}
    {context : Context} {cursor : Cursor}
    (nothing : (argument.read input mode context cursor).value? = none) :
    (argument.read input mode context cursor).context = context := by
  have law := backtracks_read input mode argument context cursor
  cases came : (argument.read input mode context cursor).outcome with
  | error failure => exact law.failed failure came
  | ok value =>
    rw [Attempt.value?, came] at nothing
    exact (law.absent (nothing ▸ came)).1

theorem tieBreak_read (input : Input σ) (mode : Mode) (label : Label)
    {alternatives : List (Argument σ)} (style : AlternationStyle) (nonempty : alternatives ≠ [])
    (context : Context) (cursor : Cursor) :
    TieBreak label.name mode (alternatives.map (·.read input mode context cursor)) cursor context
      ((firstOf label alternatives style).read input mode context cursor) := by
  have tried : readers input mode alternatives ≠ [] := by
    rw [readers_eq_map]
    simpa using nonempty
  have told := Reading.tieBreak_firstOf mode label.name tried context cursor
  have leaves : ∀ reader ∈ readers input mode alternatives,
      (reader context cursor).value? = none → (reader context cursor).context = context := by
    rw [readers_eq_map]
    exact List.forall_mem_map.mpr fun alternative _ => context_of_valueless
  obtain ⟨found, same⟩ := Reading.inTurn_eq_map leaves
  rw [readers_eq_map, List.map_map] at found same
  rw [read, readers_eq_map]
  exact (readers_eq_map input mode alternatives ▸ told).of_found found same

theorem silent_resolve {input : Input σ} {mode : Mode} {label : Label}
    {alternatives : List (Argument σ)} {style : AlternationStyle} (nonempty : alternatives ≠ [])
    {context : Context} {cursor : Cursor} {signal : Signal}
    (sent : ((firstOf label alternatives style).read input mode context cursor).outcome =
      .error (.deferred signal)) (context' : Context) (cursor' : Cursor) (parsingFailed : Bool) :
    let answers := awaited input mode context cursor parsingFailed alternatives
    answers ≠ [] ∧
      Attempt.silent (((firstOf label alternatives style).resolve input context' cursor' signal
          parsingFailed).mapError Failure.error) =
        Attempt.silent (Reading.firstOf .storing label.name answers context' cursor') := by
  intro answers
  obtain ⟨index, first, others, rfl, listed⟩ :=
    (tieBreak_read input mode label style nonempty context cursor).listed sent
  have answering := answering_awaited input mode context cursor parsingFailed [] alternatives
  rw [List.nil_append, List.length_nil, listed] at answering
  constructor
  · intro nobody
    rw [show awaited .. = [] from nobody] at answering
    cases answering
  · exact Resolution.silent_firstFrom answering label.name cursor' 0
      (rfl : Tally.empty.deferred = []) context'

/-- An alternation has the first value of its members, all read from the same place. Without one
it waits by listing those that wait, is absent if one is, and otherwise fails with the first
rejection or else the first error. The members that it has listed are resolved in turn by the same
rule, and what the context keeps without a value is what a mapping refused. -/
theorem firstOf_breaks_ties (input : Input σ) (label : Label) {alternatives : List (Argument σ)}
    (nonempty : alternatives ≠ []) (style : AlternationStyle) (mode : Mode) (context : Context)
    (cursor : Cursor) :
    let argument := firstOf label alternatives style
    let reading := argument.read input mode context cursor
    TieBreak label.name mode (alternatives.map (·.read input mode context cursor)) cursor context
        reading ∧
      ∀ signal, reading.outcome = .error (.deferred signal) →
        ∀ context' cursor' parsingFailed,
          let answers := awaited input mode context cursor parsingFailed alternatives
          TieBreak label.name .storing (Reading.inTurn cursor' answers context') cursor'
            ((argument.refusal input context' cursor' signal parsingFailed).getD context')
            ((argument.resolve input context' cursor' signal parsingFailed).mapError .error) := by
  intro argument reading
  refine ⟨tieBreak_read input mode label style nonempty context cursor, ?_⟩
  intro signal sent context' cursor' parsingFailed answers
  obtain ⟨asked, same⟩ := silent_resolve nonempty sent context' cursor' parsingFailed
  have told := (Reading.tieBreak_firstOf .storing label.name asked context' cursor').of_silent same
  refine told.of_found rfl fun nothing => ⟨rfl, ?_⟩
  obtain ⟨precedence, left, -⟩ := told.otherwise nothing
  have without : (argument.resolve input context' cursor' signal parsingFailed).WithoutValue := by
    intro value came
    refine precedence.valueless value ?_
    simp [Attempt.mapError, argument, came]
  have refused := leavesRefused_resolve input argument context' cursor' signal parsingFailed without
  exact left.symm.trans refused

def refusedFares : List (Argument Unit) :=
  [.literal "free" "free",
    .mapped
      (.orDefault (.integer ⟨"coins", none⟩ ⟨true, 32, false⟩) (.integer ⟨true, 32, false⟩ 1))
      fun value => .error (.invalid "coins" value.shown none)]

/-- Resolved without a value, the alternation has not left the context as it was: the default that
was refused is still there. -/
theorem firstOf_keeps_refused_fare :
    let fare : Argument Unit := firstOf ⟨"fare", none⟩ refusedFares .listed
    let reading := fare.read ⟨(), 20⟩ .storing .empty (.ofList [])
    let signal := Signal.branched "fare" 1 (.wrapped "coins" (.raised "coins" (.missing "coins"))) []
    let answers := awaited ⟨(), 20⟩ .storing .empty (.ofList []) false refusedFares
    let resolution := fare.resolve ⟨(), 20⟩ .empty (.ofList []) signal false
    reading.outcome = .error (.deferred signal) ∧
      resolution.outcome = .error (.invalid "coins" "1" none) ∧
      resolution.context.entries = [("coins", .integer ⟨true, 32, false⟩ 1)] ∧
      ¬TieBreak "fare" .storing (Reading.inTurn (.ofList []) answers .empty) (.ofList []) .empty
        (resolution.mapError .error) := by
  refine ⟨rfl, rfl, rfl, fun told => ?_⟩
  have unchanged := (told.otherwise rfl).2.1
  exact absurd (congrArg Table.entries unchanged) nofun

def fares : List (Argument Unit) :=
  [.literal "free" "free",
    .orDefault (.integer ⟨"coins", none⟩ ⟨true, 32, false⟩) (.integer ⟨true, 32, false⟩ 1),
    .orDefault (.boolean ⟨"pass", none⟩) (.boolean false)]

/-- Two members wait on a word that none of them takes, and the default of the first counts. -/
theorem firstOf_breaks_ties_fares :
    let fare : Argument Unit := firstOf ⟨"fare", none⟩ fares .listed
    let reading := fare.read ⟨(), 20⟩ .storing .empty (.ofList ["x"])
    let signal := Signal.branched "fare" 1
      (.raised "coins" (.invalid "coins" "x" none))
      [(2, .raised "pass" (.invalid "pass" "x" none))]
    let answers := awaited ⟨(), 20⟩ .storing .empty (.ofList ["x"]) false fares
    let resolution := fare.resolve ⟨(), 20⟩ .empty (.ofList []) signal false
    fares ≠ [] ∧ reading.outcome = .error (.deferred signal) ∧
      resolution.context.entries =
        [("coins", .integer ⟨true, 32, false⟩ 1), ("fare", .integer ⟨true, 32, false⟩ 1)] ∧
      TieBreak "fare" .storing (Reading.inTurn (.ofList []) answers .empty) (.ofList [])
        ((fare.refusal ⟨(), 20⟩ .empty (.ofList []) signal false).getD .empty)
        (resolution.mapError .error) :=
  have members : fares ≠ [] := nofun
  have law := firstOf_breaks_ties ⟨(), 20⟩ ⟨"fare", none⟩ members .listed .storing .empty
    (.ofList ["x"])
  ⟨members, rfl, rfl, law.2 _ rfl .empty (.ofList []) false⟩

end Argument

end CommandLine
