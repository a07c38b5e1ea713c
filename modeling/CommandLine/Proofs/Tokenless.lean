import CommandLine.Argument.Resolve
import CommandLine.Proofs.Backtracking
import CommandLine.Proofs.Steadiness
import Mathlib.Data.List.Forall2

/-! Arguments behind the last token.

All that an argument does there can be told from its tree: it has a value, it is
absent, it is refused, or it waits and has or has not something to fall back on.
Each combinator makes of what is told of its members what is told of it.
-/

set_option autoImplicit false

namespace CommandLine

inductive Bare where
  | given
  | absent
  | refused
  | waits (resolves : Bool)
  deriving DecidableEq

namespace Bare

def isDecided : Bare → Bool
  | .given => true
  | .absent => true
  | _ => false

def succeeds : Bare → Bool
  | .waits resolves => resolves
  | bare => bare.isDecided

def waiting? : Bare → Option Bool
  | .waits resolves => some resolves
  | _ => none

def orAbsent : Bare → Bare
  | .refused => .absent
  | .waits _ => .waits true
  | bare => bare

def orProduced (produces : Bool) : Bare → Bare
  | .refused => .waits produces
  | .waits resolves => .waits (resolves || produces)
  | bare => bare

/-- Who waits keeps the others from being absent. -/
def firstOf (members : List Bare) : Bare :=
  if .given ∈ members then .given
  else match members.filterMap waiting? with
    | [] => if .absent ∈ members ∨ members = [] then .absent else .refused
    | first :: others => .waits (first :: others).or

end Bare

namespace Argument

variable {σ : Type}

mutual

/-- A named argument refuses to be left out, whatever is below it. -/
def bare : Argument σ → Bare
  | .fixed .. => .given
  | .optional inner => (bare inner).orAbsent
  | .mapped inner _ => bare inner
  | .fallback primary producer => (bare primary).orProduced (bare producer).isDecided
  | .sequence _ parts _ _ => if (bares parts).all Bare.isDecided then .given else .refused
  | .firstOf _ alternatives _ => .firstOf (bares alternatives)
  | _ => .refused

def bares : List (Argument σ) → List Bare
  | [] => []
  | argument :: rest => bare argument :: bares rest

end

theorem bares_eq_map (arguments : List (Argument σ)) : bares arguments = arguments.map bare := by
  induction arguments with
  | nil => rfl
  | cons argument rest ih => simp [bares, ih]

def Unfailing : Argument σ → Prop
  | .mapped _ mapping => ∀ value, ∃ image, mapping value = .ok image
  | .sequence _ _ compute _ => ∀ context, ∃ value, compute context = .ok value
  | .recorder .. => False
  | .fromInvoker .. => False
  | .targeted .. => False
  | .objectId .. => False
  | .objectById .. => False
  | _ => True

end Argument

def Resolution.Answers (resolver : Resolver) (signal : Signal) (resolves : Bool) : Prop :=
  ∀ context cursor parsingFailed, cursor.hasNext = false →
    (resolver context cursor signal parsingFailed).outcome.isOk = resolves

inductive Bare.Describes (resolver : Resolver) :
    Bare → Except Failure (Option Value) → Prop where
  | given (value : Value) : Describes resolver .given (.ok (some value))
  | absent : Describes resolver .absent (.ok none)
  | refused (cause : ArgumentError) : Describes resolver .refused (.error (.error cause))
  | waits {signal : Signal} {resolves : Bool}
      (answers : Resolution.Answers resolver signal resolves) :
    Describes resolver (.waits resolves) (.error (.deferred signal))

theorem Cursor.Reaches.done {start finish : Cursor} (h : start.Reaches finish)
    (done : start.hasNext = false) : finish.hasNext = false :=
  Bool.eq_false_iff.mpr fun left => Bool.false_ne_true (done.symm.trans (h.hasNext left))

theorem Bare.Describes.isOk_eq {resolver : Resolver} {bare : Bare}
    {outcome : Except Failure (Option Value)} (h : bare.Describes resolver outcome) :
    outcome.isOk = bare.isDecided := by
  cases h <;> rfl

namespace Reading

open Resolution (Answers)

variable {context : Context} {cursor : Cursor} {bare : Bare} {resolver : Resolver}
  {reading : Reading}

theorem describes_token (done : cursor.hasNext = false) (resolver : Resolver) (display : String)
    (accept : String → Except Failure Value) :
    Bare.refused.Describes resolver (token display accept context cursor).outcome := by
  have nothing : cursor.next? = none := by
    rw [Cursor.next?_eq_none_iff]
    simpa [Cursor.peek, Cursor.hasNext] using done
  simp only [token, nothing]
  exact .refused _

theorem describes_text (done : cursor.hasNext = false) (resolver : Resolver) (display : String)
    (joinsRest : Bool) :
    Bare.refused.Describes resolver (text display joinsRest context cursor).outcome := by
  unfold text
  split
  · simp only [done]
    exact .refused _
  · exact describes_token done ..

theorem describes_orAbsent (h : bare.Describes resolver reading.outcome) (name : String)
    (start : Cursor) :
    bare.orAbsent.Describes (Resolution.orAbsent resolver)
      (reading.orAbsent name start).outcome := by
  unfold Reading.orAbsent
  generalize came : reading.outcome = outcome at h
  cases h with
  | given value => rw [came]; exact .given value
  | absent => rw [came]; exact .absent
  | refused => exact .absent
  | waits answers =>
    refine .waits fun context cursor parsingFailed _ => ?_
    simp only [Resolution.orAbsent, Resolution.unwrapped, Signal.inner?]
    split
    next came => rw [came]; rfl
    next => rfl

theorem describes_mapped (h : bare.Describes resolver reading.outcome) (name : String)
    {mapping : Value → Except ArgumentError Value}
    (total : ∀ value, ∃ image, mapping value = .ok image) :
    bare.Describes (Resolution.mapped name mapping resolver)
      (reading.mapped name mapping).outcome := by
  unfold Reading.mapped
  generalize came : reading.outcome = outcome at h
  cases h with
  | given value =>
    obtain ⟨image, mapped⟩ := total value
    simp only [mapped]
    exact .given image
  | absent => rw [came]; exact .absent
  | refused => rw [came]; exact .refused _
  | waits answers =>
    refine .waits fun context cursor parsingFailed done => ?_
    have resolves := answers context cursor parsingFailed done
    simp only [Resolution.mapped, Resolution.unwrapped, Signal.inner?]
    split
    next => exact resolves
    next => exact resolves
    next value answer =>
      obtain ⟨image, mapped⟩ := total value
      rw [answer] at resolves
      simp only [mapped]
      exact resolves

end Reading

theorem Reading.isOk_settled (reading : Reading) :
    reading.settled.outcome.isOk = reading.outcome.isOk := by
  unfold settled Attempt.mapError
  cases reading.outcome <;> rfl

namespace Resolution

variable {producer again : Reader} {produces : Bool}

/-- Whatever the policy is about a producer that fails, the second reading gives no value. -/
theorem answers_produce
    (ofProducer : ∀ context cursor, cursor.hasNext = false →
      (producer context cursor).outcome.isOk = produces)
    (ofAgain : ∀ context cursor, cursor.hasNext = false →
      (again context cursor).outcome.isOk = false)
    (name : String) (signal : Signal) : Answers (produce name producer again) signal produces := by
  intro context cursor parsingFailed done
  have came := ofProducer context cursor done
  unfold produce
  dsimp only
  split
  next answer => rwa [answer] at came
  next answer => rwa [answer] at came
  next answer =>
    rw [answer] at came
    split
    · exact came
    · split
      · exact came
      · have failed := ofAgain (producer context cursor).context cursor done
        rw [← came]
        exact (Reading.isOk_settled _).trans failed

/-- Both resolutions take the signal below the layer of the fallback, and one of them is enough. -/
theorem answers_fallback {name : String} {resolver : Resolver} {signal : Signal} {resolves : Bool}
    (ofResolver : Answers resolver signal resolves)
    (ofProduce : Answers (produce name producer again) signal produces) :
    Answers (fallback name (some resolver) producer again) (.wrapped name signal)
      (resolves || produces) := by
  intro context cursor parsingFailed done
  have first := ofResolver context cursor parsingFailed done
  simp only [fallback, Signal.inner?]
  split
  next answer =>
    rw [answer] at first ⊢
    rw [← first]
    rfl
  next answer =>
    rw [answer] at first
    rw [← first]
    exact ofProduce _ cursor parsingFailed done

end Resolution

theorem Reading.describes_postponed {bare : Bare} {reading : Reading} {resolver : Resolver}
    {chained : Option Resolver} {producer again : Reader} {produces : Bool}
    (h : bare.Describes resolver reading.outcome) {name : String}
    (chains : ∀ signal, reading.outcome = .error (.deferred signal) → chained = some resolver)
    (ofProduce : bare.isDecided = false → ∀ signal,
      Resolution.Answers (Resolution.produce name producer again) signal produces) :
    (bare.orProduced produces).Describes (Resolution.fallback name chained producer again)
      (reading.postponed name).outcome := by
  unfold Reading.postponed
  generalize came : reading.outcome = outcome at h
  cases h with
  | given value => rw [came]; exact .given value
  | absent => rw [came]; exact .absent
  | refused cause => exact .waits (ofProduce rfl (.raised name cause))
  | waits answers =>
    rw [chains _ came]
    exact .waits (Resolution.answers_fallback answers (ofProduce rfl _))

namespace Tally

variable {tally : Tally}

theorem isOk_outcome (noneWaits : tally.deferred = []) (name : String) :
    (tally.outcome name).isOk = (tally.absent || (tally.rejected.or tally.failed).isNone) := by
  unfold outcome
  rw [noneWaits]
  dsimp only
  split
  next absent => rw [absent]; rfl
  next present =>
    rw [Bool.not_eq_true] at present
    rw [present]
    split
    next came => rw [came]; rfl
    next came => rw [came]; rfl

theorem isNone_addError (tally : Tally) (cause : ArgumentError) :
    ((tally.addError cause).rejected.or (tally.addError cause).failed).isNone = false := by
  unfold addError
  split <;> cases tally.rejected <;> cases tally.failed <;> rfl

theorem absent_addError (tally : Tally) (cause : ArgumentError) :
    (tally.addError cause).absent = tally.absent := by
  unfold addError
  split <;> rfl

theorem deferred_addError (tally : Tally) (cause : ArgumentError) :
    (tally.addError cause).deferred = tally.deferred := by
  unfold addError
  split <;> rfl

end Tally

def Resolution.BranchAnswers (resolvers : List Resolver) (branch : Nat × Signal)
    (resolves : Bool) : Prop :=
  ∃ resolver, resolvers[branch.1]? = some resolver ∧
    Resolution.Answers resolver branch.2 resolves

namespace Resolution

/-- One answer among the branches is enough, be it absence. -/
theorem isOk_firstFrom {resolvers : List Resolver} {branches : List (Nat × Signal)}
    {resolutions : List Bool}
    (told : List.Forall₂ (BranchAnswers resolvers) branches resolutions) (name : String)
    {cursor : Cursor} (done : cursor.hasNext = false) (parsingFailed : Bool) {tally : Tally}
    (noneWaits : tally.deferred = []) (context : Context) :
    (firstFrom name cursor parsingFailed resolvers branches tally context).outcome.isOk =
      (resolutions.or || tally.absent ||
        (resolutions.isEmpty && (tally.rejected.or tally.failed).isNone)) := by
  induction told generalizing tally context with
  | nil =>
    have came := Tally.isOk_outcome noneWaits name
    unfold firstFrom
    cases answer : tally.outcome name <;> rw [answer] at came <;> exact came
  | @cons branch resolves branches resolutions head _ ih =>
    obtain ⟨resolver, member, answers⟩ := head
    have resolved := answers context cursor parsingFailed done
    obtain ⟨index, signal⟩ := branch
    unfold firstFrom
    simp only [member]
    split
    next answer =>
      rw [answer] at resolved
      rw [answer, ← resolved]
      rfl
    next answer =>
      rw [answer] at resolved
      have still : tally.addAbsent.deferred = [] := noneWaits
      rw [Attempt.outcome_after, ih still, ← resolved]
      simp [Tally.addAbsent, Except.isOk, Except.toBool]
    next cause answer =>
      rw [answer] at resolved
      rw [Attempt.outcome_after, ih ((tally.deferred_addError cause).trans noneWaits),
        tally.absent_addError, tally.isNone_addError, ← resolved]
      simp [Except.isOk, Except.toBool]

end Resolution

/-- What the tally holds after the members in `seen`, none of which had a value. -/
structure Tally.Tells (resolvers : List Resolver) (seen : List Bare) (tally : Tally) : Prop where
  noneGiven : .given ∉ seen
  waiting : List.Forall₂ (Resolution.BranchAnswers resolvers) tally.deferred
    (seen.filterMap Bare.waiting?)
  absent : tally.absent = decide (.absent ∈ seen)
  quiet : (tally.rejected.or tally.failed).isNone = decide (.refused ∉ seen)

namespace Tally.Tells

variable {resolvers : List Resolver} {seen : List Bare} {tally : Tally}

theorem empty (resolvers : List Resolver) : Tally.empty.Tells resolvers [] :=
  ⟨nofun, .nil, rfl, rfl⟩

theorem waiting_append (h : tally.Tells resolvers seen) {bare : Bare}
    (decides : bare.waiting? = none) :
    List.Forall₂ (Resolution.BranchAnswers resolvers) tally.deferred
      ((seen ++ [bare]).filterMap Bare.waiting?) := by
  rw [List.filterMap_append, List.filterMap_cons_none decides, List.filterMap_nil, List.append_nil]
  exact h.waiting

theorem addAbsent (h : tally.Tells resolvers seen) :
    tally.addAbsent.Tells resolvers (seen ++ [.absent]) where
  noneGiven := by simpa using h.noneGiven
  waiting := h.waiting_append rfl
  absent := by simp [Tally.addAbsent]
  quiet := h.quiet.trans (by simp)

theorem addError (h : tally.Tells resolvers seen) (cause : ArgumentError) :
    (tally.addError cause).Tells resolvers (seen ++ [.refused]) where
  noneGiven := by simpa using h.noneGiven
  waiting := by rw [tally.deferred_addError]; exact h.waiting_append rfl
  absent := by simpa [tally.absent_addError] using h.absent
  quiet := by rw [tally.isNone_addError]; simp

theorem addDeferred (h : tally.Tells resolvers seen) {index : Nat} {signal : Signal}
    {resolves : Bool} (answers : Resolution.BranchAnswers resolvers (index, signal) resolves) :
    (tally.addDeferred index signal).Tells resolvers (seen ++ [.waits resolves]) where
  noneGiven := by simpa using h.noneGiven
  waiting := by
    rw [List.filterMap_append]
    exact List.rel_append h.waiting (.cons answers .nil)
  absent := by simpa [Tally.addDeferred] using h.absent
  quiet := h.quiet.trans (by simp)

/-- Members that have no value wait, are absent or refused, so that without any of these there are
no members. -/
theorem eq_nil (h : tally.Tells resolvers seen) (noneWaits : seen.filterMap Bare.waiting? = [])
    (noneAbsent : .absent ∉ seen) (noneRefused : .refused ∉ seen) : seen = [] := by
  rw [List.eq_nil_iff_forall_not_mem]
  intro bare inside
  cases bare with
  | given => exact h.noneGiven inside
  | absent => exact noneAbsent inside
  | refused => exact noneRefused inside
  | waits => cases List.filterMap_eq_nil_iff.mp noneWaits _ inside

theorem describes (h : tally.Tells resolvers seen) (name : String) :
    (Bare.firstOf seen).Describes (Resolution.firstOf name resolvers) (tally.outcome name) := by
  have waiting := h.waiting
  unfold Bare.firstOf Tally.outcome
  rw [if_neg h.noneGiven]
  generalize told : seen.filterMap Bare.waiting? = resolutions at waiting
  generalize tally.deferred = deferred at waiting
  cases waiting with
  | cons head others =>
    refine .waits fun context cursor parsingFailed done => ?_
    have came := Resolution.isOk_firstFrom (.cons head others) name done parsingFailed
      (rfl : Tally.empty.deferred = []) context
    rw [Resolution.firstOf, came]
    simp [Tally.empty]
  | nil =>
    dsimp only
    by_cases absent : .absent ∈ seen
    · rw [h.absent, decide_eq_true absent, if_pos rfl, if_pos (.inl absent)]
      exact .absent
    · have quiet := h.quiet
      rw [h.absent, decide_eq_false absent, if_neg Bool.false_ne_true]
      cases came : tally.rejected.or tally.failed with
      | none =>
        rw [came] at quiet
        have empty := h.eq_nil told absent (of_decide_eq_true quiet.symm)
        rw [if_pos (.inr empty)]
        exact .absent
      | some cause =>
        rw [came] at quiet
        have refused : Bare.refused ∈ seen := Classical.not_not.mp (of_decide_eq_false quiet.symm)
        have nonempty : seen ≠ [] := List.ne_nil_of_mem refused
        rw [if_neg (not_or.mpr ⟨absent, nonempty⟩)]
        exact .refused cause

end Tally.Tells

variable {σ : Type}

namespace Reading

open Argument (readers bares resolvers)

variable {input : Input σ} {context : Context} {cursor : Cursor}

theorem isOk_inOrder {parts : List (Argument σ)}
    (told : ∀ part ∈ parts, ∀ context cursor, cursor.hasNext = false →
      (part.read input .storing context cursor).outcome.isOk = part.bare.isDecided)
    (context : Context) (done : cursor.hasNext = false) :
    (inOrder (readers input .storing parts) context cursor).outcome.isOk =
      (bares parts).all Bare.isDecided := by
  -- Parts are read to the end if none of them fails, as none takes a token.
  induction parts generalizing context cursor with
  | nil => rfl
  | cons part rest ih =>
    obtain ⟨head, others⟩ := List.forall_mem_cons.mp told
    have first := head context cursor done
    have onward := (Argument.backtracks_read input .storing part context cursor).forward
    unfold readers inOrder bares
    dsimp only
    rw [List.all_cons, ← first]
    split
    next came =>
      rw [came]
      rfl
    next came =>
      rw [came, Attempt.outcome_after, ih others _ (onward.done done)]
      rfl

theorem describes_sequence {parts : List (Argument σ)}
    (told : ∀ part ∈ parts, ∀ context cursor, cursor.hasNext = false →
      (part.read input .storing context cursor).outcome.isOk = part.bare.isDecided)
    {compute : Context → Except ArgumentError Value}
    (total : ∀ context, ∃ value, compute context = .ok value) (resolver : Resolver) (mode : Mode)
    (name : String) (context : Context) (done : cursor.hasNext = false) :
    (if (bares parts).all Bare.isDecided then Bare.given else .refused).Describes resolver
      (sequence mode name compute (readers input .storing parts) context cursor).outcome := by
  have came := isOk_inOrder told context done
  unfold sequence
  dsimp only
  rw [← came]
  generalize inOrder (readers input .storing parts) context cursor = filled
  obtain ⟨outcome, stored, finish, events⟩ := filled
  cases outcome with
  | error cause => exact .refused cause
  | ok =>
    obtain ⟨value, computed⟩ := total stored
    simp only [computed]
    exact .given value

theorem describes_firstFrom {mode : Mode} {alternatives : List (Argument σ)}
    (told : ∀ alternative ∈ alternatives, ∀ context,
      alternative.bare.Describes (alternative.resolve input)
        (alternative.read input mode context cursor).outcome)
    (name : String) {front : List Resolver} {seen : List Bare} {tally : Tally}
    (tells : tally.Tells (front ++ resolvers input alternatives) seen) (context : Context) :
    (Bare.firstOf (seen ++ bares alternatives)).Describes
      (Resolution.firstOf name (front ++ resolvers input alternatives))
      (firstFrom name cursor front.length tally (readers input mode alternatives)
        context).outcome := by
  -- The tally tells of the members read so far, and the resolvers in `front` are theirs.
  induction alternatives generalizing front seen tally context with
  | nil =>
    rw [bares, List.append_nil]
    exact tells.describes name
  | cons alternative rest ih =>
    obtain ⟨head, others⟩ := List.forall_mem_cons.mp told
    have first := head context
    -- The member joins those in front, and the tally tells of it as well.
    have shift : front ++ resolvers input (alternative :: rest) =
        front ++ [alternative.resolve input] ++ resolvers input rest := by
      rw [resolvers, List.append_cons]
    have onward {bare : Bare} {tally : Tally}
        (tells : tally.Tells (front ++ resolvers input (alternative :: rest)) (seen ++ [bare]))
        (context : Context) :
        (Bare.firstOf (seen ++ bare :: bares rest)).Describes
          (Resolution.firstOf name (front ++ resolvers input (alternative :: rest)))
          (firstFrom name cursor (front.length + 1) tally (readers input mode rest)
            context).outcome := by
      rw [shift] at tells ⊢
      have law := ih others tells context
      rwa [List.length_append, ← List.append_cons seen] at law
    unfold readers firstFrom bares
    dsimp only
    generalize alternative.bare = bare at first ⊢
    generalize came : (alternative.read input mode context cursor).outcome = outcome at first
    cases first with
    | given value =>
      have inside : .given ∈ seen ++ .given :: bares rest :=
        List.mem_append_right _ List.mem_cons_self
      rw [Bare.firstOf, if_pos inside, came]
      exact .given value
    | absent => exact onward tells.addAbsent _
    | refused cause => exact onward (tells.addError cause) _
    | waits answers =>
      refine onward (tells.addDeferred ⟨_, ?_, answers⟩) _
      simp [resolvers]

end Reading

namespace Argument

theorem describes_read (input : Input σ) {argument : Argument σ}
    (unfailing : argument.Everywhere Unfailing) (mode : Mode) (context : Context) {cursor : Cursor}
    (done : cursor.hasNext = false) :
    argument.bare.Describes (argument.resolve input)
      (argument.read input mode context cursor).outcome := by
  -- Behind the last token reading does what is told of it, in either mode and whatever the
  -- context.
  induction argument generalizing mode context cursor with
  | literal name word => exact Reading.describes_token done ..
  | integer label kind =>
    rw [read, Reading.outcome_kept]
    exact Reading.describes_token done ..
  | text label joinsRest =>
    rw [read, Reading.outcome_kept]
    exact Reading.describes_text done ..
  | boolean label =>
    rw [read, Reading.outcome_kept]
    exact Reading.describes_token done ..
  | fixed label value =>
    rw [read, Reading.outcome_kept]
    exact .given value
  | optional inner ih =>
    exact Reading.describes_orAbsent (ih unfailing.optional mode context done) ..
  | named inner =>
    have nothing : cursor.peek = none := by simpa [Cursor.peek, Cursor.hasNext] using done
    simp only [read, Attempt.stripped, nothing]
    exact .refused _
  | mapped inner mapping ih =>
    rw [read, Reading.outcome_kept]
    exact Reading.describes_mapped (ih unfailing.mapped .viewing context done) _ unfailing.self
  | fallback primary producer ofPrimary ofProducer =>
    have first := ofPrimary unfailing.primary mode context done
    refine Reading.describes_postponed first (fun signal sent => if_pos ?_)
      fun undecided signal => ?_
    · -- The primary argument has sent a signal, so that it has a resolution of its own.
      exact Classical.byContradiction fun steady =>
        decided_read input (Bool.eq_false_iff.mpr steady) mode context cursor signal sent
    · refine Resolution.answers_produce (fun context cursor done => ?_)
        (fun context cursor done => ?_) primary.name signal
      · exact (ofProducer unfailing.producer .viewing context done).isOk_eq
      · exact (ofPrimary unfailing.primary .storing context done).isOk_eq.trans undecided
  | sequence label parts compute joinsFormats ofParts =>
    refine Reading.describes_sequence (fun part member context cursor done => ?_) unfailing.self _
      mode label.name context done
    exact (ofParts part member (unfailing.part part member) .storing context done).isOk_eq
  | firstOf label alternatives style ofAlternatives =>
    rw [read, Reading.firstOf, Reading.outcome_kept]
    have tells : Tally.empty.Tells ([] ++ resolvers input alternatives) [] := .empty _
    refine Reading.describes_firstFrom (fun alternative member context => ?_) label.name tells
      context
    exact ofAlternatives alternative member (unfailing.alternative alternative member) mode context
      done
  | _ => exact unfailing.self.elim

end Argument

end CommandLine
