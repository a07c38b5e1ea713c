import CommandLine.Proofs.Accounting
import CommandLine.Proofs.Choice
import CommandLine.Proofs.Effort
import CommandLine.Proofs.Modes
import Mathlib.Data.List.DropRight

/-! Whom a token is held against that is left over.

The check behind the last argument looks for arguments without an entry in the
context. An argument that came to a value in the end has one, with a single
exception: a keyword that was read is not stored, so that it may be blamed for a
token that others left.
-/

set_option autoImplicit false

namespace CommandLine

theorem Table.StoredUnder.has_of_not_mem {α : Type} {stored : List String} {before after : Table α}
    (h : StoredUnder stored before after) {name : String} (outside : name ∉ stored) :
    after.has name = before.has name := by
  rw [Bool.eq_iff_iff, has_iff_get?, has_iff_get?, h.apart name outside]

namespace Attempt

variable {ε α : Type}

def value? (attempt : Attempt ε (Option α)) : Option α :=
  match attempt.outcome with
  | .ok value => value
  | .error _ => none

theorem value?_eq_some {attempt : Attempt ε (Option α)} {value : α} :
    attempt.value? = some value ↔ attempt.outcome = .ok (some value) := by
  unfold value?
  cases attempt.outcome <;> simp

end Attempt

namespace Visit

def value? : Visit → Option Value
  | .read _ _ _ _ reading => reading.value?
  | .resolved _ _ _ _ _ _ resolution => resolution.value?

def last? (index : Nat) (visits : List Visit) : Option Visit :=
  (visits.filter (·.index = index)).getLast?

theorem succeeds_of_value? {visit : Visit} {value : Value} (came : visit.value? = some value) :
    visit.Succeeds := by
  cases visit <;> simp only [Succeeds, Attempt.value?_eq_some.mp came] <;> rfl

theorem last?_of_reads {index : Nat} {later : List Visit} {visit : Visit} (inside : visit ∈ later)
    (reads : visit.Reads index) : ∃ last, last? index later = some last := by
  have found : visit ∈ later.filter (·.index = index) :=
    List.mem_filter.mpr ⟨inside, by simpa using index_of_reads reads⟩
  exact ⟨_, List.getLast?_eq_some_getLast (List.ne_nil_of_mem found)⟩

end Visit

namespace Step

theorem wentWrong_or_done {cursor : Cursor} {skipping : Exploration} :
    skipping.wentWrong = true ∨ (skipping.start cursor).hasNext = false := by
  cases wrong : skipping.wentWrong with
  | true => exact .inl rfl
  | false =>
    rw [Exploration.start_of_right wrong]
    exact .inr (Bool.or_eq_false_iff.mp wrong).2

/-- The value that an argument comes to is stored under its name, unless it is a keyword that is
read. -/
structure Records (keyword : Bool) (step : Step) : Prop where
  read : keyword = false → ∀ {context cursor value},
    (step.read context cursor).value? = some value →
      (step.read context cursor).context.has step.name = true
  /-- An argument is resolved where the rest went wrong, or behind the last token. -/
  resolve : ∀ {context cursor signal parsingFailed value},
    parsingFailed = true ∨ cursor.hasNext = false →
      (step.resolve context cursor signal parsingFailed).value? = some value →
        (step.resolve context cursor signal parsingFailed).context.has step.name = true

theorem Records.left {keyword : Bool} {step : Step} (h : step.Records keyword) {visit : Visit}
    {index : Nat} (call : step.Calls index visit) {value : Value}
    (came : visit.value? = some value) (stored : keyword = true → visit.isReading = false) :
    visit.left.has step.name = true := by
  cases call with
  | read =>
    have ordinary : keyword = false := by
      cases keyword with
      | false => rfl
      | true => cases stored rfl
    exact h.read ordinary came
  | resolved => exact h.resolve wentWrong_or_done came

structure Spares (name : String) (step : Step) : Prop where
  read : ∀ {context cursor}, context.has name = false →
    (step.read context cursor).context.has name = false
  resolve : ∀ {context cursor signal parsingFailed}, context.has name = false →
    (step.resolve context cursor signal parsingFailed).context.has name = false

theorem Spares.answer {step : Step} {name : String} (h : step.Spares name) {context : Context}
    {cursor : Cursor} {signal : Signal} {skipping : Exploration}
    (clear : context.has name = false) :
    (step.answer context cursor signal skipping).context.has name = false :=
  h.resolve (h.read clear)

theorem Touches.lacks {step : Step} {name : String} {context after : Context}
    (h : step.Touches context after) (spare : step.Spares name)
    (clear : context.has name = false) : after.has name = false := by
  cases h with
  | read => exact spare.read clear
  | answer => exact spare.answer clear

def SparedBut (i : Nat) (name : String) (steps : List Step) : Prop :=
  ∀ j other, steps[j]? = some other → j ≠ i → other.Spares name

namespace SparedBut

variable {i : Nat} {name : String} {first : Step} {rest : List Step}

theorem head (h : SparedBut (i + 1) name (first :: rest)) : first.Spares name :=
  h 0 first rfl (Nat.succ_ne_zero i).symm

theorem tail (h : SparedBut (i + 1) name (first :: rest)) : SparedBut i name rest :=
  fun j other there apart => h (j + 1) other there (by omega)

theorem behind (h : SparedBut 0 name (first :: rest)) : ∀ other ∈ rest, other.Spares name := by
  intro other inside
  obtain ⟨j, there⟩ := List.getElem?_of_mem inside
  exact h (j + 1) other there (Nat.succ_ne_zero j)

end SparedBut

end Step

namespace Explores

variable {index : Nat} {steps : List Step} {context : Context} {cursor : Cursor}
  {exploration : Exploration}

theorem spares (h : Explores index steps context cursor exploration) {name : String}
    (spare : ∀ step ∈ steps, step.Spares name) (clear : context.has name = false) :
    exploration.context.has name = false := by
  induction h with
  | reached => exact clear
  | failed => exact (spare _ List.mem_cons_self).read clear
  | read _ _ ih | dropped _ _ _ ih =>
    obtain ⟨head, others⟩ := List.forall_mem_cons.mp spare
    exact ih others (head.read clear)
  | unresolved | finished => exact (spare _ List.mem_cons_self).answer clear
  | restarted _ _ _ _ _ _ ofOnward =>
    obtain ⟨head, others⟩ := List.forall_mem_cons.mp spare
    exact ofOnward others (head.answer clear)
  | resolved _ _ _ _ ih =>
    obtain ⟨head, others⟩ := List.forall_mem_cons.mp spare
    rw [Table.has_merge, ih others (head.read clear), head.answer clear]
    rfl

end Explores

namespace Concludes

open Visit

variable {index i : Nat} {steps : List Step} {context final : Context} {own : List Visit}
  (h : Concludes index i steps context own final)
include h

theorem last?_eq {visits earlier : List Visit}
    (place : ofIndex (index + i) visits = earlier ++ own) :
    last? (index + i) visits = own.getLast? := by
  rw [last?, ← ofIndex, place, List.getLast?_append_of_ne_nil _ h.ne_nil]

/-- A reading that leaves the context alone is all that there is of an argument whose name the
others spare. -/
theorem lacks {step : Step} (here : steps[i]? = some step)
    (clear : context.has step.name = false) (spare : Step.SparedBut i step.name steps)
    (views : ∀ context cursor value, (step.read context cursor).value? = some value →
      (step.read context cursor).context = context)
    {last : Visit} (ends : own.getLast? = some last) {value : Value}
    (came : last.value? = some value) (read : last.isReading = true) :
    final.has step.name = false := by
  induction h with
  | read _ others =>
    cases here
    cases ends
    exact others.spares spare.behind ((views _ _ _ came).symm ▸ clear)
  | forgotten sent =>
    cases ends
    cases sent.symm.trans (Attempt.value?_eq_some.mp came)
  | took | stayed =>
    -- The last visit is a resolution.
    cases ends
    cases read
  | behind touched _ ih =>
    exact ih here (touched.lacks spare.head clear) spare.tail ends
  | merged touched answered _ ih =>
    rw [Table.has_merge, answered.lacks spare.head clear,
      ih here (touched.lacks spare.head clear) spare.tail ends, Bool.or_false]

end Concludes

namespace Explores

open Visit

variable {index : Nat} {steps : List Step} {context : Context} {cursor : Cursor}
  {exploration : Exploration}

/-- Unless a run fails, an argument that came to a value when it was last visited has an entry in
the end, if it was not a keyword that was read. -/
theorem has_of_last? (h : Explores index steps context cursor exploration)
    (remember : ∀ step ∈ steps, step.Remembers)
    (unfailed : exploration.ending.isFailed = false) {i : Nat} {step : Step}
    (here : steps[i]? = some step) {keyword : Bool} (records : step.Records keyword)
    {last : Visit} (visited : last? (index + i) exploration.visits = some last) {value : Value}
    (came : last.value? = some value) (stored : keyword = true → last.isReading = false) :
    exploration.context.has step.name = true := by
  obtain ⟨earlier, own, place, concludes, -⟩ :=
    h.concluded unfailed (List.getElem?_eq_some_iff.mp here).1
  have ends := concludes.last?_eq place ▸ visited
  have call := concludes.calls here last (List.mem_of_getLast? ends)
  exact concludes.has remember ends (succeeds_of_value? came) (records.left call came stored)

theorem lacks_of_last? (h : Explores index steps context cursor exploration)
    (unfailed : exploration.ending.isFailed = false) {i : Nat} {step : Step}
    (here : steps[i]? = some step) (clear : context.has step.name = false)
    (spare : Step.SparedBut i step.name steps)
    (views : ∀ context cursor value, (step.read context cursor).value? = some value →
      (step.read context cursor).context = context)
    {last : Visit} (visited : last? (index + i) exploration.visits = some last) {value : Value}
    (came : last.value? = some value) (read : last.isReading = true) :
    exploration.context.has step.name = false := by
  obtain ⟨earlier, own, place, concludes, -⟩ :=
    h.concluded unfailed (List.getElem?_eq_some_iff.mp here).1
  exact concludes.lacks here clear spare views (concludes.last?_eq place ▸ visited) came read

end Explores

theorem Tally.outcome_ne_some (tally : Tally) (name : String) (value : Value) :
    tally.outcome name ≠ .ok (some value) := by
  unfold outcome
  split
  · exact nofun
  · split
    · exact nofun
    · split <;> exact nofun

theorem Reading.value?_settled (reading : Reading) : reading.settled.value? = reading.value? := by
  unfold settled Attempt.mapError Attempt.value?
  cases reading.outcome <;> rfl

theorem Reading.value?_orAbsent (reading : Reading) (name : String) (start : Cursor) :
    (reading.orAbsent name start).value? = reading.value? := by
  unfold orAbsent
  split <;> simp [Attempt.value?, *]

theorem Reading.value?_postponed (reading : Reading) (name : String) :
    (reading.postponed name).value? = reading.value? := by
  unfold postponed
  split <;> simp [Attempt.value?, *]

namespace Resolution

def Records (name : String) (resolver : Resolver) : Prop :=
  ∀ ⦃context : Context⦄ ⦃cursor : Cursor⦄ ⦃signal : Signal⦄ ⦃parsingFailed : Bool⦄ ⦃value : Value⦄,
    parsingFailed = true ∨ cursor.hasNext = false →
      (resolver context cursor signal parsingFailed).value? = some value →
        (resolver context cursor signal parsingFailed).context.has name = true

variable {name : String} {resolver : Resolver}

theorem Records.unwrapped (h : Records name resolver) :
    Records name (Resolution.unwrapped resolver) := by
  intro context cursor signal parsingFailed value asked came
  unfold Resolution.unwrapped at came ⊢
  split at came
  next => cases came
  next => exact h asked came

theorem Records.orAbsent (h : Records name resolver) :
    Records name (Resolution.orAbsent resolver) := by
  refine unwrapped fun context cursor signal parsingFailed value asked came => ?_
  dsimp only at came ⊢
  split at came
  next => exact h asked came
  next => cases came

theorem Records.named (h : Records name resolver) (display lead : String) :
    Records name (Resolution.named display lead resolver) := by
  refine unwrapped fun context cursor signal parsingFailed value asked came => ?_
  rcases Attempt.stripped_cases display lead id
      (fun adjusted => resolver context adjusted signal parsingFailed) context cursor with
    ⟨-, cause, eq⟩ | ⟨adjusted, strip, ⟨failure, failed, eq⟩ | ⟨result, read, eq⟩⟩
  · rw [eq] at came
    cases came
  · rw [eq] at came
    cases failed.symm.trans (Attempt.value?_eq_some.mp came)
  · rw [eq] at came ⊢
    refine h (asked.imp_right fun done => ?_) came
    -- The copy is as far from the end as the cursor is.
    obtain ⟨position, length⟩ := Cursor.position_of_stripNext? strip
    simpa only [Cursor.hasNext, position, length] using done

theorem records_mapped (name : String) (mapping : Value → Except ArgumentError Value)
    (inner : Resolver) : Records name (Resolution.mapped name mapping inner) := by
  refine Records.unwrapped fun context cursor signal parsingFailed value asked came => ?_
  dsimp only at came ⊢
  split at came
  next failed => cases failed.symm.trans (Attempt.value?_eq_some.mp came)
  next none => cases none.symm.trans (Attempt.value?_eq_some.mp came)
  next =>
    split at came
    next => cases came
    next => exact Table.has_put_self ..

theorem records_recorder (name : String) : Records name (Resolution.recorder name) := by
  intro context cursor signal parsingFailed value asked came
  unfold Resolution.recorder at came ⊢
  split at came
  next => cases came
  next right =>
    rw [if_neg right]
    exact Table.has_put_self ..

theorem records_produce {producer again : Reader}
    (ofAgain : ∀ context (cursor : Cursor) value, cursor.hasNext = false →
      (again context cursor).value? = some value →
        (again context cursor).context.has name = true) :
    Records name (produce name producer again) := by
  -- The argument is only read again where nothing is left to be read.
  intro context cursor signal parsingFailed value asked came
  unfold produce at came ⊢
  dsimp only at came ⊢
  split at came
  next => cases came
  next => exact Table.has_put_self ..
  next =>
    split at came
    next => cases came
    next circumstantial =>
      rw [if_neg circumstantial]
      split at came
      next => cases came
      next right =>
        rw [if_neg right]
        have read : (again (producer context cursor).context cursor).value? = some value :=
          (Reading.value?_settled _).symm.trans came
        exact ofAgain _ _ value (asked.resolve_left right) read

theorem records_fallback {chained : Option Resolver} {producer again : Reader}
    (ofChained : ∀ resolver ∈ chained, Records name resolver)
    (ofAgain : ∀ context (cursor : Cursor) value, cursor.hasNext = false →
      (again context cursor).value? = some value →
        (again context cursor).context.has name = true) :
    Records name (fallback name chained producer again) := by
  intro context cursor signal parsingFailed value asked came
  revert came
  unfold fallback
  cases signal.inner? with
  | none => exact records_produce ofAgain asked
  | some below =>
    cases chained with
    | none => exact records_produce ofAgain asked
    | some resolver =>
      dsimp only
      split
      next => exact ofChained resolver rfl asked
      next => exact records_produce ofAgain asked

theorem has_firstFrom {cursor : Cursor} {parsingFailed : Bool} {alternatives : List Resolver}
    {branches : List (Nat × Signal)} {tally : Tally} {context : Context} {value : Value}
    (came : (firstFrom name cursor parsingFailed alternatives branches tally context).value? =
      some value) :
    (firstFrom name cursor parsingFailed alternatives branches tally context).context.has name =
      true := by
  induction branches generalizing tally context with
  | nil =>
    have outcome := Attempt.value?_eq_some.mp came
    unfold firstFrom at outcome
    dsimp only at outcome
    split at outcome
    next absent =>
      cases outcome
      exact absurd absent (tally.outcome_ne_some name value)
    next => cases outcome
  | cons branch rest ih =>
    obtain ⟨index, signal⟩ := branch
    unfold firstFrom at came ⊢
    dsimp only at came ⊢
    split at came
    next => exact ih came
    next =>
      split at came
      next => exact Table.has_put_self ..
      next => exact ih came
      next => exact ih came

end Resolution

variable {σ : Type}

namespace Argument

theorem value?_read_keyword {input : Input σ} {argument : Argument σ}
    (keyword : argument.isKeyword = true) (context : Context) {cursor : Cursor}
    (done : cursor.hasNext = false) :
    (argument.read input .storing context cursor).value? = none := by
  have nothing : cursor.peek = none := by simpa [Cursor.peek, Cursor.hasNext] using done
  induction argument with
  | literal name word =>
    rw [read, Reading.literal, Reading.token, (Cursor.next?_eq_none_iff cursor).mpr nothing]
    rfl
  | optional inner ih => rw [read, Reading.value?_orAbsent, ih keyword]
  | named inner ih =>
    rw [read]
    unfold Attempt.stripped
    dsimp only
    rw [nothing]
    rfl
  | fallback primary producer ofPrimary _ => rw [read, Reading.value?_postponed, ofPrimary keyword]
  | _ => cases keyword

theorem records_read (input : Input σ) (argument : Argument σ) (context : Context)
    (cursor : Cursor) {value : Value}
    (came : (argument.read input .storing context cursor).value? = some value)
    (ordinary : argument.isKeyword = false) :
    (argument.read input .storing context cursor).context.has argument.name = true := by
  have held := holds_read input argument context cursor value (Attempt.value?_eq_some.mp came)
  rw [if_neg (Bool.eq_false_iff.mp ordinary)] at held
  exact (Table.has_iff_get? _ _).mpr ⟨value, held⟩

theorem records_resolve (input : Input σ) (argument : Argument σ) :
    Resolution.Records argument.name (argument.resolve input) := by
  induction argument with
  | recorder name accepted => exact Resolution.records_recorder name
  | optional inner ih => exact ih.orAbsent
  | named inner ih => exact ih.named _ _
  | mapped inner mapping _ => exact Resolution.records_mapped inner.name mapping _
  | fallback primary producer ofPrimary _ =>
    refine Resolution.records_fallback ?_ fun context cursor value done came => ?_
    · exact fun resolver chained => Resolution.of_mem_chained chained ofPrimary
    · cases keyword : primary.isKeyword with
      | false => exact primary.records_read input context cursor came keyword
      | true => cases (value?_read_keyword keyword context done).symm.trans came
  | firstOf label alternatives style _ =>
    intro context cursor signal parsingFailed value _ came
    rw [resolve] at came ⊢
    unfold Resolution.firstOf at came ⊢
    split at came
    next => exact Resolution.has_firstFrom came
    next => cases came
  | _ =>
    intro context cursor signal parsingFailed value _ came
    cases came

theorem records_step (input : Input σ) (argument : Argument σ) :
    (argument.step input).Records argument.isKeyword where
  read ordinary context cursor _ came := argument.records_read input context cursor came ordinary
  resolve asked came := records_resolve input argument asked came

theorem spares_step (input : Input σ) {argument : Argument σ} {name : String}
    (outside : name ∉ argument.nodeNames) : (argument.step input).Spares name where
  read {context cursor} clear := by
    have stores := (backtracks_read input .storing argument context cursor).stores
    rwa [← stores.has_of_not_mem fun inside =>
      outside (argument.stored_subset_nodeNames inside)] at clear
  resolve {context cursor signal parsingFailed} clear := by
    have stores := (alwaysKeeps_resolve input argument context cursor signal parsingFailed).stores
    rwa [← stores.has_of_not_mem outside] at clear

/-- The visit leaves no entry: it comes to no value, or it reads a keyword. -/
def Unstored (argument : Argument σ) (visit : Visit) : Prop :=
  visit.value? = none ∨ argument.isKeyword = true ∧ visit.isReading = true

end Argument

namespace Command

variable {command : Command σ} {input : Input σ} {cursor : Cursor} {token : String}

def Leaves (command : Command σ) (input : Input σ) (cursor : Cursor) (token : String) : Prop :=
  let exploration := explore 0 (command.arguments.map (·.step input)) .empty cursor
  exploration.ending.isFailed = false ∧ exploration.cursor.peek = some token

theorem result_of_leaves (left : command.Leaves input cursor token) :
    (command.parse input cursor).result = .error
      (match command.firstWithoutValue?
        (explore 0 (command.arguments.map (·.step input)) .empty cursor).context with
      | some argument => .invalid argument.display token none
      | none => .unexpected token) := by
  obtain ⟨unfailed, next⟩ := left
  rw [result_parse]
  unfold settle leftover?
  rw [next]
  cases ending : (explore 0 (command.arguments.map (·.step input)) .empty cursor).ending with
  | failed =>
    rw [ending] at unfailed
    cases unfailed
  | _ =>
    dsimp only
    cases command.firstWithoutValue? _ <;> rfl

theorem firstWithoutValue?_eq (context : Context) :
    command.firstWithoutValue? context =
      (command.arguments.rtakeWhile fun argument => !context.has argument.name).head? := by
  rw [firstWithoutValue?, List.rtakeWhile, List.head?_reverse]

theorem without_of_firstWithoutValue? {context : Context} {argument : Argument σ}
    (first : command.firstWithoutValue? context = some argument) :
    ∃ before behind, command.arguments = before ++ argument :: behind ∧
      ∀ other ∈ argument :: behind, context.has other.name = false := by
  rw [firstWithoutValue?_eq] at first
  obtain ⟨behind, tail⟩ := List.head?_eq_some_iff.mp first
  obtain ⟨before, split⟩ :=
    List.rtakeWhile_suffix (fun argument => !context.has argument.name) command.arguments
  rw [tail] at split
  refine ⟨before, behind, split.symm, fun other inside => ?_⟩
  rw [← tail] at inside
  simpa using List.mem_rtakeWhile_imp inside

theorem firstWithoutValue?_eq_none_iff {context : Context} {front : List (Argument σ)}
    {last : Argument σ} (ends : command.arguments = front ++ [last]) :
    command.firstWithoutValue? context = none ↔ context.has last.name = true := by
  rw [firstWithoutValue?_eq, List.head?_eq_none_iff, ends]
  cases stored : context.has last.name <;> simp [List.rtakeWhile, stored]

/-- An argument that leaves an entry in the end is not among those that are blamed. -/
theorem unstored_of_leaves (left : command.Leaves input cursor token) {index : Nat}
    {argument : Argument σ} (here : command.arguments[index]? = some argument)
    (lacks : (explore 0 (command.arguments.map (·.step input)) .empty cursor).context.has
      argument.name = false) {visit : Visit}
    (last : Visit.last? index (command.parse input cursor).visits = some visit) :
    argument.Unstored visit := by
  cases came : visit.value? with
  | none => exact .inl came
  | some value =>
    refine .inr (Classical.byContradiction fun entered => ?_)
    have stored : argument.isKeyword = true → visit.isReading = false := fun keyword =>
      Bool.eq_false_iff.mpr fun reading => entered ⟨keyword, reading⟩
    have explores := explores_explore 0 (command.arguments.map (·.step input)) .empty cursor
    have step : (command.arguments.map (·.step input))[index]? = some (argument.step input) := by
      simp [here]
    have has := explores.has_of_last?
      (List.forall_mem_map.mpr fun argument _ => argument.remembers_step input) left.1 step
      (argument.records_step input) (by rwa [Nat.zero_add]) came stored
    exact Bool.false_ne_true (lacks.symm.trans has)

theorem lacks_of_keyword (left : command.Leaves input cursor token) {front : List (Argument σ)}
    {last : Argument σ} (ends : command.arguments = front ++ [last])
    (keyword : last.isKeyword = true) (apart : ∀ other ∈ front, last.name ∉ other.nodeNames)
    {visit : Visit} (visited : Visit.last? front.length (command.parse input cursor).visits =
      some visit)
    (reading : visit.isReading = true) {value : Value} (came : visit.value? = some value) :
    (explore 0 (command.arguments.map (·.step input)) .empty cursor).context.has last.name =
      false := by
  have explores := explores_explore 0 (command.arguments.map (·.step input)) .empty cursor
  have step : (command.arguments.map (·.step input))[front.length]? = some (last.step input) := by
    simp [ends]
  refine explores.lacks_of_last? left.1 step rfl (fun j other there different => ?_)
    (fun context cursor value read => ?_) (by rwa [Nat.zero_add]) came reading
  · have before : j < front.length := by
      have bound := (List.getElem?_eq_some_iff.mp there).1
      simp only [ends, List.map_append, List.length_append, List.length_map] at bound
      simp only [List.length_cons, List.length_nil] at bound
      omega
    rw [ends, List.map_append, List.getElem?_append_left (by simpa using before)] at there
    obtain ⟨member, inside, rfl⟩ := List.mem_map.mp (List.mem_of_getElem? there)
    exact member.spares_step input (apart member inside)
  · have held := last.holds_read input context cursor value (Attempt.value?_eq_some.mp read)
    rwa [if_pos keyword] at held

/-- A token that all arguments leave is held against an argument from which on none came to a value
that is stored, or against nobody. If the last argument came to such a value, nobody is blamed; if
it is a keyword that was read, and only it has this name, somebody is. -/
theorem parse_blames (command : Command σ) (input : Input σ) (cursor : Cursor) (token : String)
    (left : command.Leaves input cursor token) :
    let run := command.parse input cursor
    run.cursor.peek = some token ∧
      (∀ index < command.arguments.length, ∃ visit, Visit.last? index run.visits = some visit) ∧
      (run.result = .error (.unexpected token) ∨
        ∃ before argument behind, command.arguments = before ++ argument :: behind ∧
          run.result = .error (.invalid argument.display token none) ∧
          ∀ index other visit, before.length ≤ index → command.arguments[index]? = some other →
            Visit.last? index run.visits = some visit → other.Unstored visit) ∧
      ∀ front last visit, command.arguments = front ++ [last] →
        Visit.last? front.length run.visits = some visit →
          (¬last.Unstored visit → run.result = .error (.unexpected token)) ∧
          (last.isKeyword = true → visit.isReading = true → visit.value?.isSome = true →
            (∀ other ∈ front, last.name ∉ other.nodeNames) →
              run.result ≠ .error (.unexpected token)) := by
  intro run
  have explores := explores_explore 0 (command.arguments.map (·.step input)) .empty cursor
  have result := result_of_leaves left
  refine ⟨left.2, fun index bound => ?_, ?_, fun front last visit ends visited => ?_⟩
  · obtain ⟨visit, inside, reads⟩ :=
      explores.reads_all left.1 index (Nat.zero_le _) (by simpa using bound)
    exact Visit.last?_of_reads inside reads
  · cases first : command.firstWithoutValue? _ with
    | none => exact .inl (by rw [first] at result; exact result)
    | some argument =>
      obtain ⟨before, behind, split, lack⟩ := without_of_firstWithoutValue? first
      refine .inr ⟨before, argument, behind, split, by rw [first] at result; exact result, ?_⟩
      intro index other visit further here visited
      refine unstored_of_leaves left here (lack other ?_) visited
      rw [split, List.getElem?_append_right further] at here
      exact List.mem_of_getElem? here
  · have here : command.arguments[front.length]? = some last := by simp [ends]
    constructor
    · intro entered
      cases stored : (explore 0 (command.arguments.map (·.step input)) .empty cursor).context.has
          last.name with
      | false => exact absurd (unstored_of_leaves left here stored visited) entered
      | true => rwa [(firstWithoutValue?_eq_none_iff ends).mpr stored] at result
    · intro keyword reading came apart blamed
      obtain ⟨value, came⟩ := Option.isSome_iff_exists.mp came
      have lacks := lacks_of_keyword left ends keyword apart visited reading came
      cases first : command.firstWithoutValue? _ with
      | none =>
        have has := (firstWithoutValue?_eq_none_iff ends).mp first
        exact Bool.false_ne_true (lacks.symm.trans has)
      | some argument =>
        rw [first] at result
        cases result.symm.trans blamed

def buying : Command Unit where
  arguments :=
    [.text ⟨"item", none⟩ false, .optional (.integer ⟨"limit", none⟩ ⟨true, 32, false⟩),
      .optional (.boolean ⟨"silent", none⟩)]
  distinct := by decide

theorem parse_blames_limit :
    buying.Leaves ⟨(), 20⟩ (.ofList ["apple", "x"]) "x" ∧
      (buying.parse ⟨(), 20⟩ (.ofList ["apple", "x"])).result =
        .error (.invalid "limit" "x" none) ∧
      ∃ before argument behind, buying.arguments = before ++ argument :: behind ∧
        argument.display = "limit" ∧
        ∀ index other visit, before.length ≤ index → buying.arguments[index]? = some other →
          Visit.last? index (buying.parse ⟨(), 20⟩ (.ofList ["apple", "x"])).visits =
            some visit → other.Unstored visit := by
  refine ⟨⟨rfl, rfl⟩, rfl, ?_⟩
  obtain ⟨-, -, blames, -⟩ :=
    parse_blames buying ⟨(), 20⟩ (.ofList ["apple", "x"]) "x" ⟨rfl, rfl⟩
  rcases blames with nobody | ⟨before, argument, behind, split, blamed, unstored⟩
  · cases nobody
  · have display : ArgumentError.invalid "limit" "x" none =
        .invalid argument.display "x" none := Except.error.inj blamed
    exact ⟨before, argument, behind, split, (ArgumentError.invalid.inj display).1.symm, unstored⟩

def going : Command Unit where
  arguments := [.literal "go" "go"]
  distinct := by decide

theorem going_blames_its_keyword :
    going.Leaves ⟨(), 20⟩ (.ofList ["go", "x"]) "x" ∧
      (Visit.last? 0 (going.parse ⟨(), 20⟩ (.ofList ["go", "x"])).visits).bind Visit.value? =
        some (.text "go") ∧
      (going.parse ⟨(), 20⟩ (.ofList ["go", "x"])).result = .error (.invalid "go" "x" none) :=
  ⟨⟨rfl, rfl⟩, rfl, rfl⟩

end Command

end CommandLine
