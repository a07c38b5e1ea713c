import CommandLine.Argument.Build
import CommandLine.Command.Parse
import CommandLine.Proofs.Concluding
import CommandLine.Proofs.Resolving

/-! What a command may rely on once it has been read.

Every deferral was answered, with one exception: if the last argument takes
tokens as it is resolved, those that wait before it are forgotten. Whoever is
not among the forgotten and always has a value, such as an argument with a
default, has one in the context.
-/

set_option autoImplicit false

namespace CommandLine

theorem Attempt.exists_of_isOk {ε α : Type} {attempt : Attempt ε α}
    (succeeds : attempt.outcome.isOk = true) : ∃ value, attempt.outcome = .ok value := by
  cases came : attempt.outcome with
  | ok value => exact ⟨value, rfl⟩
  | error => simp [came, Except.isOk, Except.toBool] at succeeds

namespace Visit

def TakesLast (count : Nat) : Visit → Prop
  | .read .. => False
  | .resolved index _ _ _ start _ resolution =>
    index + 1 = count ∧ consumes start resolution = true

end Visit

namespace Deferral

/-- A run of `count` arguments ended with the last one taking tokens, while more than this one
waited. -/
def CutShort (count : Nat) (visits : List Visit) : Prop :=
  ∃ earlier last, visits = earlier ++ [last] ∧ last.TakesLast count ∧ 1 < (waiting earlier).length

theorem waiting_of_takesLast {earlier : List Visit} {last : Visit} {count : Nat}
    (takes : last.TakesLast count) : waiting (earlier ++ [last]) = (waiting earlier).tail := by
  cases last with
  | read => exact takes.elim
  | resolved => simp [waiting, Visit.track]

theorem CutShort.waiting_ne_nil {count : Nat} {visits : List Visit} (h : CutShort count visits) :
    waiting visits ≠ [] := by
  obtain ⟨earlier, last, rfl, takes, several⟩ := h
  rw [waiting_of_takesLast takes]
  intro none
  have length := congrArg List.length none
  rw [List.length_tail, List.length_nil] at length
  omega

end Deferral

structure Step.Remembers (step : Step) : Prop where
  read : ∀ {context cursor name}, context.has name = true →
    (step.read context cursor).context.has name = true
  resolve : ∀ {context cursor signal parsingFailed name}, context.has name = true →
    (step.resolve context cursor signal parsingFailed).context.has name = true

structure Step.Stores (step : Step) : Prop where
  read : ∀ {context cursor value}, (step.read context cursor).outcome = .ok value →
    (step.read context cursor).context.has step.name = true
  resolve : ∀ {context cursor signal parsingFailed value},
    (step.resolve context cursor signal parsingFailed).outcome = .ok value →
      (step.resolve context cursor signal parsingFailed).context.has step.name = true

namespace Step

variable {step : Step} {context : Context} {cursor : Cursor} {signal : Signal}
  {skipping : Exploration}

theorem Remembers.answer (h : step.Remembers) {name : String} (stored : context.has name = true) :
    (step.answer context cursor signal skipping).context.has name = true :=
  h.resolve (h.read stored)

theorem Stores.left {visit : Visit} {index : Nat} (h : step.Stores)
    (call : step.Calls index visit) (succeeds : visit.Succeeds) :
    visit.left.has step.name = true := by
  cases call with
  | read =>
    obtain ⟨value, came⟩ := Attempt.exists_of_isOk succeeds
    exact h.read came
  | resolved =>
    obtain ⟨value, came⟩ := Attempt.exists_of_isOk succeeds
    exact h.resolve came

end Step

namespace Explores

open Deferral

variable {index : Nat} {steps : List Step} {context : Context} {cursor : Cursor}
  {exploration : Exploration}

theorem takesLast (h : Explores index steps context cursor exploration)
    (finished : exploration.ending.isFinished = true) :
    ∃ earlier last, exploration.visits = earlier ++ [last] ∧
      last.TakesLast (index + steps.length) := by
  induction h with
  | reached => cases finished
  | failed => cases finished
  | unresolved => cases finished
  -- Whoever is resolved without taking tokens passes on how the others ended.
  | resolved passed => exact absurd (passed.unfinished.symm.trans finished) Bool.noConfusion
  | finished _ _ _ consumes => exact ⟨_ :: _, _, rfl, rfl, consumes⟩
  | read _ _ ih | dropped _ _ _ ih =>
    obtain ⟨earlier, last, ends, takes⟩ := ih finished
    exact ⟨_ :: earlier, last, congrArg (List.cons _) ends, Nat.add_right_comm _ 1 _ ▸ takes⟩
  | @restarted index step _ _ context cursor signal skipping _ _ _ _ _ _ _ _ ofOnward =>
    obtain ⟨earlier, last, ends, takes⟩ := ofOnward finished
    refine ⟨step.visits context cursor signal skipping index ++ earlier, last, ?_,
      Nat.add_right_comm _ 1 _ ▸ takes⟩
    rw [List.append_assoc, ← ends]
    rfl

theorem waiting_eq_nil_iff (h : Explores 0 steps context cursor exploration) :
    waiting exploration.visits = [] ↔ ¬CutShort steps.length exploration.visits := by
  constructor
  · exact fun none short => short.waiting_ne_nil none
  · intro long
    -- If the last argument ended the run, its own deferral was the only one that waited.
    by_cases finished : exploration.ending.isFinished = true
    · obtain ⟨earlier, last, ends, takes⟩ := h.takesLast finished
      rw [Nat.zero_add] at takes
      have few : ¬1 < (waiting earlier).length :=
        fun several => long ⟨earlier, last, ends, takes, several⟩
      rw [ends, waiting_of_takesLast takes]
      apply List.eq_nil_of_length_eq_zero
      rw [List.length_tail]
      omega
    · exact h.waiting_eq_nil (Bool.eq_false_iff.mpr finished)

theorem remembers (h : Explores index steps context cursor exploration)
    (remember : ∀ step ∈ steps, step.Remembers) {name : String}
    (stored : context.has name = true) : exploration.context.has name = true := by
  induction h with
  | reached => exact stored
  | failed => exact (remember _ List.mem_cons_self).read stored
  | read _ _ ih | dropped _ _ _ ih =>
    obtain ⟨head, others⟩ := List.forall_mem_cons.mp remember
    exact ih others (head.read stored)
  | unresolved | finished =>
    obtain ⟨head, -⟩ := List.forall_mem_cons.mp remember
    exact head.answer stored
  | restarted _ _ _ _ _ _ ofOnward =>
    obtain ⟨head, others⟩ := List.forall_mem_cons.mp remember
    exact ofOnward others (head.answer stored)
  | resolved =>
    -- The context of the resolution comes first, and what the others stored is merged into it.
    obtain ⟨head, -⟩ := List.forall_mem_cons.mp remember
    rw [Table.has_merge, head.answer stored, Bool.or_true]

end Explores

theorem Concludes.has {index i : Nat} {steps : List Step} {context final : Context}
    {own : List Visit} (h : Concludes index i steps context own final)
    (remember : ∀ step ∈ steps, step.Remembers) {last : Visit} (ends : own.getLast? = some last)
    (succeeds : last.Succeeds) {name : String} (stored : last.left.has name = true) :
    final.has name = true := by
  induction h with
  | read _ others =>
    cases ends
    exact others.remembers (List.forall_mem_cons.mp remember).2 stored
  | forgotten sent =>
    cases ends
    obtain ⟨value, came⟩ := Attempt.exists_of_isOk succeeds
    cases sent.symm.trans came
  | took _ _ again =>
    cases ends
    exact again.remembers (List.forall_mem_cons.mp remember).2 stored
  | stayed =>
    cases ends
    change Table.has (Step.answer ..).context name = true at stored
    rw [Table.has_merge, stored, Bool.or_true]
  | behind _ _ ih => exact ih (List.forall_mem_cons.mp remember).2 ends
  | merged _ _ _ ih =>
    rw [Table.has_merge, ih (List.forall_mem_cons.mp remember).2 ends, Bool.true_or]

namespace Explores

open Deferral

variable {index : Nat} {steps : List Step} {context : Context} {cursor : Cursor}
  {exploration : Exploration}

/-- Unless a run fails, only an argument whose deferral is lost can end without a value if it
never succeeds without one. -/
theorem stores (h : Explores index steps context cursor exploration)
    (remember : ∀ step ∈ steps, step.Remembers)
    (unfailed : exploration.ending.isFailed = false) {i : Nat} {step : Step}
    (here : steps[i]? = some step) (stores : step.Stores)
    (kept : ∀ deferral ∈ waiting exploration.visits, deferral.index ≠ index + i) :
    exploration.context.has step.name = true := by
  obtain ⟨earlier, own, -, concludes, decided⟩ :=
    h.concluded unfailed (List.getElem?_eq_some_iff.mp here).1
  rcases decided with ⟨last, ends, succeeds⟩ | ⟨deferral, lost, same⟩
  · have call := concludes.calls here last (List.mem_of_getLast? ends)
    exact concludes.has remember ends succeeds (stores.left call succeeds)
  · exact absurd same (kept deferral lost)

end Explores

namespace Reading

variable {context : Context} {cursor : Cursor} {value : Option Value}

theorem isSome_of_token {display : String} {accept : String → Except Failure Value}
    (came : (token display accept context cursor).outcome = .ok value) : value.isSome = true := by
  unfold token at came
  split at came
  · cases came
  · split at came
    · cases came
    · cases came
      rfl

theorem isSome_of_text {display : String} {joinsRest : Bool}
    (came : (text display joinsRest context cursor).outcome = .ok value) :
    value.isSome = true := by
  unfold text at came
  split at came
  · dsimp only at came
    split at came
    · cases came
      rfl
    · cases came
  · exact isSome_of_token came

theorem has_kept {reading : Reading} (name : String) (came : reading.outcome = .ok value)
    (present : value.isSome = true) : (reading.kept .storing name).context.has name = true := by
  obtain ⟨inner, rfl⟩ := Option.isSome_iff_exists.mp present
  simp only [kept, came]
  exact Table.has_put_self ..

theorem postponed_of_ok {reading : Reading} {name : String}
    (came : (reading.postponed name).outcome = .ok value) : reading.postponed name = reading := by
  unfold postponed at came ⊢
  split at came <;> first | rfl | cases came

end Reading

namespace Argument

variable {σ : Type}

theorem remembers_step (input : Input σ) (argument : Argument σ) :
    (argument.step input).Remembers where
  read := (backtracks_read input .storing argument _ _).stores.has
  resolve := (alwaysKeeps_resolve input argument _ _ _ _).stores.has

theorem stores_orDefault {input : Input σ} {primary : Argument σ}
    (steady : primary.isFallback = false)
    (ofPrimary : ∀ {context cursor value},
      (primary.read input .storing context cursor).outcome = .ok value →
        (primary.read input .storing context cursor).context.has primary.name = true)
    (default : Value) : ((primary.orDefault default).step input).Stores where
  read := by
  -- A default answers whatever the argument put off, so that it always comes to a value.
    intro context cursor value came
    change ((primary.read input .storing context cursor).postponed _).outcome = _ at came
    have same := Reading.postponed_of_ok came
    rw [same] at came
    show ((primary.read input .storing context cursor).postponed _).context.has _ = true
    rw [same]
    exact ofPrimary came
  resolve := by
    intro context cursor signal parsingFailed _ _
    show ((primary.orDefault default).resolve input context cursor signal _).context.has _ = true
    rw [orDefault, resolve, steady]
    unfold Resolution.fallback
    -- The signal may come without its layer, but it is not looked at in either case.
    cases signal.inner? <;> exact Table.has_put_self ..

inductive Defaulted : Argument σ → Prop where
  | integer (label : Label) (kind : IntegerKind) (default : Value) :
    Defaulted (orDefault (.integer label kind) default)
  | text (label : Label) (joinsRest : Bool) (default : Value) :
    Defaulted (orDefault (.text label joinsRest) default)
  | boolean (label : Label) (default : Value) : Defaulted (orDefault (.boolean label) default)

theorem Defaulted.stores_step {argument : Argument σ} (h : argument.Defaulted) (input : Input σ) :
    (argument.step input).Stores := by
  cases h with
  | integer label kind default =>
    refine stores_orDefault rfl (fun came => ?_) default
    have read := (Reading.outcome_kept ..).symm.trans came
    exact Reading.has_kept _ read (Reading.isSome_of_token read)
  | text label joinsRest default =>
    refine stores_orDefault rfl (fun came => ?_) default
    have read := (Reading.outcome_kept ..).symm.trans came
    exact Reading.has_kept _ read (Reading.isSome_of_text read)
  | boolean label default =>
    refine stores_orDefault rfl (fun came => ?_) default
    have read := (Reading.outcome_kept ..).symm.trans came
    exact Reading.has_kept _ read (Reading.isSome_of_token read)

end Argument

namespace Command

open Deferral

variable {σ : Type}

theorem unfailed_of_result {command : Command σ} {input : Input σ} {cursor : Cursor}
    {context : Context} (parsed : (command.parse input cursor).result = .ok context) :
    let exploration := explore 0 (command.arguments.map (·.step input)) .empty cursor
    exploration.ending.isFailed = false ∧ exploration.context = context := by
  intro exploration
  unfold parse at parsed
  dsimp only at parsed
  split at parsed
  next => cases parsed
  next unfailed =>
    split at parsed
    next => cases parsed
    next =>
      refine ⟨?_, Except.ok.inj parsed⟩
      cases ending : exploration.ending with
      | failed cause => exact absurd ending (unfailed cause)
      | _ => rfl

/-- Once a command has been read, no deferral waits unless the run was cut short. Whichever does
not wait was handed to the resolution of its argument, and unless the argument was read again, that
succeeded. So an argument with a default has a value unless its deferral waits. -/
theorem parse_accounts_for_deferrals (command : Command σ) (input : Input σ) (cursor : Cursor)
    (context : Context) (parsed : (command.parse input cursor).result = .ok context) :
    let visits := (command.parse input cursor).visits
    Stacked [] visits ∧ (waiting visits = [] ↔ ¬CutShort command.arguments.length visits) ∧
      Each (fun deferral later => deferral ∈ waiting visits ∨ deferral.Handed later) visits ∧
      Each (fun deferral later => deferral ∈ waiting visits ∨ deferral.Settled later) visits ∧
      ∀ index argument, command.arguments[index]? = some argument → argument.Defaulted →
        (∀ deferral ∈ waiting visits, deferral.index ≠ index) →
          context.has argument.name = true := by
  intro visits
  obtain ⟨unfailed, came⟩ := unfailed_of_result parsed
  have explores := explores_explore 0 (command.arguments.map (·.step input)) .empty cursor
  refine ⟨explores.stacked [], ?_, explores.each_handed, explores.each_settled unfailed, ?_⟩
  · have law := explores.waiting_eq_nil_iff
    rwa [List.length_map] at law
  · intro index argument here defaulted kept
    rw [← came]
    have step : (command.arguments.map (·.step input))[index]? = some (argument.step input) := by
      simp [here]
    refine explores.stores (fun step inside => ?_) unfailed step (defaulted.stores_step input) ?_
    · obtain ⟨member, -, rfl⟩ := List.mem_map.mp inside
      exact member.remembers_step input
    · rwa [Nat.zero_add]

/-- Two arguments that put off the token they cannot read, of which the second one takes it in the
end. -/
def forgetful : Command Unit where
  arguments :=
    [.orDefault (.integer ⟨"count", none⟩ ⟨true, 32, false⟩) (.integer ⟨true, 32, false⟩ 1),
      .fallback (.literal "all" "all") (.text ⟨"player", none⟩ false)]
  distinct := by decide

theorem forgetful_loses_its_default :
    ∃ context, (forgetful.parse ⟨(), 20⟩ (.ofList ["x"])).result = .ok context ∧
      context.entries = [("all", .text "x")] ∧
      (waiting (forgetful.parse ⟨(), 20⟩ (.ofList ["x"])).visits).map (·.index) = [0] :=
  ⟨_, rfl, rfl, rfl⟩

theorem parse_accounts_for_forgetful :
    ∃ context, (forgetful.parse ⟨(), 20⟩ (.ofList ["x"])).result = .ok context ∧
      CutShort 2 (forgetful.parse ⟨(), 20⟩ (.ofList ["x"])).visits := by
  refine ⟨_, rfl, ?_⟩
  have law := parse_accounts_for_deferrals forgetful ⟨(), 20⟩ (.ofList ["x"]) _ rfl
  exact Classical.not_not.mp fun long => List.cons_ne_nil _ _ (law.2.1.mpr long)

end Command

end CommandLine
