import CommandLine.Proofs.Accounting
import CommandLine.Proofs.Modes

/-! The order of what a command returns, and its age.

Without groups every argument stores under its own name alone. The names in the
context then stand in the order of the arguments, in whatever order deferrals
were resolved and however often reading started over, and an argument that
decided when it was last read has there what it decided on then.
-/

set_option autoImplicit false

namespace CommandLine

namespace Table

variable {α : Type}

/-- The names that `after` has on top of those of `before` stand in the order of `names`. -/
def Continues (names : List String) (before after : Table α) : Prop :=
  ∃ added, after.names = before.names ++ added ∧ added.Sublist names

theorem Continues.trans {first second : List String} {before middle after : Table α}
    (h : Continues first before middle) (onward : Continues second middle after) :
    Continues (first ++ second) before after := by
  obtain ⟨added, order, inFirst⟩ := h
  obtain ⟨more, later, inSecond⟩ := onward
  exact ⟨added ++ more, by rw [later, order, List.append_assoc], inFirst.append inSecond⟩

theorem Continues.append_right {names : List String} {before after : Table α}
    (h : Continues names before after) (more : List String) :
    Continues (names ++ more) before after := by
  obtain ⟨added, order, inside⟩ := h
  exact ⟨added, order, inside.trans (List.sublist_append_left ..)⟩

theorem StoredUnder.continues {name : String} {before after : Table α}
    (h : StoredUnder [name] before after) : Continues [name] before after := by
  obtain ⟨added, order⟩ := h.order
  have distinct := after.nodup_names
  rw [← order, List.nodup_append] at distinct
  obtain ⟨-, once, apart⟩ := distinct
  have only : ∀ other ∈ added, other = name := by
    intro other inside
    refine Classical.byContradiction fun different => ?_
    have later : other ∈ after.names := order ▸ List.mem_append_right _ inside
    obtain ⟨value, held⟩ := (mem_names_iff after other).mp later
    rw [h.apart other (by simpa using different)] at held
    exact apart other ((mem_names_iff before other).mpr ⟨value, held⟩) other inside rfl
  refine ⟨added, order.symm, ?_⟩
  cases added with
  | nil => exact List.nil_sublist _
  | cons first rest =>
    cases rest with
    | nil => exact only first List.mem_cons_self ▸ List.Sublist.refl _
    | cons second rest =>
      have same := (only first (by simp)).trans (only second (by simp)).symm
      simp [same] at once

theorem StoredUnder.of_singleton {name : String} {before after : Table α}
    (h : StoredUnder [name] before after) (more : List String) :
    StoredUnder (name :: more) before after :=
  h.mono fun _ inside => List.mem_singleton.mp inside ▸ List.mem_cons_self

theorem StoredUnder.cons {stored : List String} {before after : Table α}
    (h : StoredUnder stored before after) (name : String) :
    StoredUnder (name :: stored) before after :=
  h.mono fun _ inside => List.mem_cons_of_mem _ inside

theorem StoredUnder.merge {stored : List String} {before own others : Table α}
    (ofOwn : StoredUnder stored before own) (ofOthers : StoredUnder stored before others) :
    StoredUnder stored before (own.merge others) := by
  constructor
  · rw [names_merge]
    exact ofOwn.order.trans (List.prefix_append ..)
  · intro name outside
    rw [get?_merge, ofOthers.apart name outside, ofOwn.apart name outside, Option.or_self]

/-- What came of a copy is merged into what came of the original meanwhile. -/
theorem Continues.merge {first second : List String} {before middle own others : Table α}
    (h : Continues first before own) (copied : middle.names <+: own.names)
    (ofOthers : Continues second middle others) :
    Continues (first ++ second) before (own.merge others) := by
  obtain ⟨added, order, inFirst⟩ := h
  obtain ⟨more, later, inSecond⟩ := ofOthers
  -- The names that were copied are there already, and of the others the new ones go to the end.
  have old : middle.names.filter (· ∉ own.names) = [] := by
    rw [List.filter_eq_nil_iff]
    intro name inside
    simp [copied.subset inside]
  refine ⟨added ++ more.filter (· ∉ own.names), ?_, inFirst.append ?_⟩
  · rw [names_merge, later, List.filter_append, old, order, List.nil_append, List.append_assoc]
  · exact List.filter_sublist.trans inSecond

end Table

namespace Visit

def reading? (index : Nat) : Visit → Option Reading
  | .read other _ _ _ reading => if other = index then some reading else none
  | .resolved .. => none

def lastReading? (index : Nat) (visits : List Visit) : Option Reading :=
  (visits.filterMap (reading? index)).getLast?

section

variable {index : Nat} {earlier later : List Visit}

theorem lastReading?_append :
    lastReading? index (earlier ++ later) =
      (lastReading? index later).or (lastReading? index earlier) := by
  rw [lastReading?, List.filterMap_append, List.getLast?_append]
  rfl

theorem lastReading?_ofIndex (visits : List Visit) :
    lastReading? index (ofIndex index visits) = lastReading? index visits := by
  rw [lastReading?, ofIndex, List.filterMap_filter, lastReading?]
  congr 2
  funext visit
  cases visit with
  | read other => by_cases same : other = index <;> simp [reading?, Visit.index, same]
  | resolved => simp [reading?]

theorem lastReading?_of_reads {visit : Visit} (inside : visit ∈ later)
    (reads : visit.Reads index) : ∃ reading, lastReading? index later = some reading := by
  cases visit with
  | resolved => exact reads.elim
  | read other name context cursor reading =>
    have found : reading ∈ later.filterMap (reading? index) :=
      List.mem_filterMap.mpr ⟨_, inside, if_pos reads⟩
    exact ⟨_, List.getLast?_eq_some_getLast (List.ne_nil_of_mem found)⟩

end

end Visit

structure Step.Owns (step : Step) : Prop where
  read : ∀ (context : Context) cursor,
    context.StoredUnder [step.name] (step.read context cursor).context
  resolve : ∀ (context : Context) cursor signal parsingFailed,
    context.StoredUnder [step.name] (step.resolve context cursor signal parsingFailed).context

/-- Where nothing is stored under the name of the argument, reading it leaves there what `entry`
makes of the value that it comes to. -/
def Step.Enters (entry : Option Value → Option Value) (step : Step) : Prop :=
  ∀ context cursor value, (step.read context cursor).outcome = .ok value →
    context.get? step.name = none → (step.read context cursor).context.get? step.name = entry value

namespace Step

open Visit

variable {step : Step} {index : Nat} {context : Context} {cursor : Cursor} {signal : Signal}
  {skipping : Exploration}

theorem Owns.answer (h : step.Owns) :
    context.StoredUnder [step.name] (step.answer context cursor signal skipping).context :=
  (h.read context cursor).trans (h.resolve ..)

theorem lastReading?_visit :
    lastReading? index [step.visit index context cursor] = some (step.read context cursor) := by
  simp [lastReading?, visit, reading?]

theorem lastReading?_answered :
    lastReading? index
        [step.visit index context cursor, step.answered context cursor signal skipping index] =
      some (step.read context cursor) := by
  simp [lastReading?, visit, answered, reading?, List.filterMap_cons]

end Step

theorem Step.Touches.storedUnder {step : Step} {context after : Context}
    (h : step.Touches context after) (own : step.Owns) :
    context.StoredUnder [step.name] after := by
  cases h with
  | read => exact own.read ..
  | answer => exact own.answer

theorem clear_behind {first : Step} {rest : List Step} {context after : Context}
    (apart : first.name ∉ rest.map (·.name))
    (clear : ∀ step ∈ first :: rest, context.get? step.name = none)
    (stored : context.StoredUnder [first.name] after) :
    ∀ step ∈ rest, after.get? step.name = none := by
  intro step inside
  have different : step.name ∉ [first.name] := by
    rw [List.mem_singleton]
    exact fun same => apart (same ▸ List.mem_map_of_mem inside)
  rw [stored.apart _ different]
  exact clear step (List.mem_cons_of_mem _ inside)

namespace Explores

open Visit

variable {index : Nat} {steps : List Step} {context : Context} {cursor : Cursor}
  {exploration : Exploration}

theorem storedUnder (h : Explores index steps context cursor exploration)
    (own : ∀ step ∈ steps, step.Owns) :
    context.StoredUnder (steps.map (·.name)) exploration.context := by
  induction h with
  | reached => exact .refl ..
  | failed => exact ((own _ List.mem_cons_self).read ..).of_singleton _
  | unresolved | finished => exact (own _ List.mem_cons_self).answer.of_singleton _
  | read _ _ ih | dropped _ _ _ ih =>
    obtain ⟨head, others⟩ := List.forall_mem_cons.mp own
    exact ((head.read ..).of_singleton _).trans ((ih others).cons _)
  | restarted _ _ _ _ _ _ ofOnward =>
    obtain ⟨head, others⟩ := List.forall_mem_cons.mp own
    exact (head.answer.of_singleton _).trans ((ofOnward others).cons _)
  | resolved _ _ _ _ ih =>
    obtain ⟨head, others⟩ := List.forall_mem_cons.mp own
    have passedOver := ((head.read ..).of_singleton _).trans ((ih others).cons _)
    exact (head.answer.of_singleton _).merge passedOver

/-- What is stored stands in the order of the arguments. -/
theorem continues (h : Explores index steps context cursor exploration)
    (own : ∀ step ∈ steps, step.Owns) :
    context.Continues (steps.map (·.name)) exploration.context := by
  induction h with
  | reached => exact ⟨[], (List.append_nil _).symm, List.Sublist.refl _⟩
  | failed =>
    exact ((own _ List.mem_cons_self).read ..).continues.append_right _
  | read _ _ ih | dropped _ _ _ ih =>
    obtain ⟨head, others⟩ := List.forall_mem_cons.mp own
    exact (head.read ..).continues.trans (ih others)
  | unresolved | finished => exact (own _ List.mem_cons_self).answer.continues.append_right _
  | restarted _ _ _ _ _ _ ofOnward =>
    obtain ⟨head, others⟩ := List.forall_mem_cons.mp own
    exact head.answer.continues.trans (ofOnward others)
  | resolved _ _ _ _ ih =>
    obtain ⟨head, others⟩ := List.forall_mem_cons.mp own
    exact head.answer.continues.merge (head.resolve ..).order (ih others)

end Explores

theorem Concludes.get?_eq {index i : Nat} {steps : List Step} {context final : Context}
    {visits : List Visit} (h : Concludes index i steps context visits final)
    (own : ∀ step ∈ steps, step.Owns) (distinct : (steps.map (·.name)).Nodup)
    (clear : ∀ step ∈ steps, context.get? step.name = none) {step : Step}
    (here : steps[i]? = some step) {entry : Option Value → Option Value}
    (enters : step.Enters entry) {reading : Reading} {value : Option Value}
    (last : Visit.lastReading? (index + i) visits = some reading)
    (came : reading.outcome = .ok value) : final.get? step.name = entry value := by
  induction h with
  | read decided others =>
    cases here
    cases Step.lastReading?_visit.symm.trans last
    obtain ⟨apart, -⟩ := List.nodup_cons.mp distinct
    rw [(others.storedUnder (List.forall_mem_cons.mp own).2).apart _ apart]
    exact enters _ _ value came (clear _ List.mem_cons_self)
  | forgotten sent =>
    cases Step.lastReading?_visit.symm.trans last
    cases sent.symm.trans came
  | took sent | stayed sent =>
    cases Step.lastReading?_answered.symm.trans last
    cases sent.symm.trans came
  | behind touched _ ih =>
    obtain ⟨head, others⟩ := List.forall_mem_cons.mp own
    obtain ⟨apart, distinct⟩ := List.nodup_cons.mp distinct
    rw [← Nat.add_assoc, Nat.add_right_comm] at last
    exact ih others distinct (clear_behind apart clear (touched.storedUnder head)) here last
  | merged touched answered _ ih =>
    obtain ⟨head, others⟩ := List.forall_mem_cons.mp own
    obtain ⟨apart, distinct⟩ := List.nodup_cons.mp distinct
    rw [← Nat.add_assoc, Nat.add_right_comm] at last
    have held := ih others distinct (clear_behind apart clear (touched.storedUnder head)) here last
    -- The argument that is resolved has nothing under the name of another one.
    have none := clear_behind apart clear (answered.storedUnder head) step
      (List.mem_of_getElem? here)
    rw [Table.get?_merge, held, none, Option.or_none]

/-- Unless a run fails, an argument that decided when it was last read has in the context what it
decided on then: whatever came before was discarded with the context that it was read in. -/
theorem Explores.get?_of_lastReading {index : Nat} {steps : List Step} {context : Context}
    {cursor : Cursor} {exploration : Exploration}
    (h : Explores index steps context cursor exploration)
    (own : ∀ step ∈ steps, step.Owns) (distinct : (steps.map (·.name)).Nodup)
    (clear : ∀ step ∈ steps, context.get? step.name = none)
    (unfailed : exploration.ending.isFailed = false) {i : Nat} {step : Step}
    (here : steps[i]? = some step) {entry : Option Value → Option Value}
    (enters : step.Enters entry) {reading : Reading} {value : Option Value}
    (last : Visit.lastReading? (index + i) exploration.visits = some reading)
    (came : reading.outcome = .ok value) : exploration.context.get? step.name = entry value := by
  obtain ⟨earlier, visits, place, concludes, -⟩ :=
    h.concluded unfailed (List.getElem?_eq_some_iff.mp here).1
  obtain ⟨visit, inside, reads⟩ := concludes.exists_reads
  obtain ⟨found, ofVisits⟩ := Visit.lastReading?_of_reads inside reads
  rw [← Visit.lastReading?_ofIndex, place, Visit.lastReading?_append, ofVisits, Option.some_or,
    ← ofVisits] at last
  exact concludes.get?_eq own distinct clear here enters last came

variable {σ : Type}

namespace Argument

def isGroup : Argument σ → Bool
  | .sequence .. => true
  | .firstOf .. => true
  | _ => false

theorem mem_stored_of_ungrouped {argument : Argument σ}
    (ungrouped : argument.Everywhere (·.isGroup = false)) {name : String}
    (inside : name ∈ argument.stored) : name ∈ [argument.name] := by
  induction argument with
  | literal => cases inside
  | optional inner ih => exact ih ungrouped.optional inside
  | named inner ih => exact ih ungrouped.named inside
  | fallback primary producer ofPrimary _ => exact ofPrimary ungrouped.primary inside
  | sequence | firstOf => cases ungrouped.self
  | _ => exact inside

/-- Without groups a resolution stores under the name of the argument, whatever is below it. -/
theorem alwaysKeeps_resolve_of_ungrouped (input : Input σ) {argument : Argument σ}
    (ungrouped : argument.Everywhere (·.isGroup = false)) :
    Resolution.AlwaysKeeps [argument.name] (argument.resolve input) := by
  induction argument with
  | recorder name accepted =>
    intro context cursor signal parsingFailed
    exact (alwaysKeeps_resolve input (.recorder name accepted) ..).mono fun _ => id
  | optional inner ih => exact (ih ungrouped.optional).orAbsent
  | named inner ih => exact (ih ungrouped.named).named _ _
  | mapped inner mapping ih => exact (ih ungrouped.mapped).mapped List.mem_cons_self mapping
  | fallback primary producer ofPrimary _ =>
    refine Resolution.fallback_keeps ?_ (backtracks_read input .viewing producer) ?_
      List.mem_cons_self
    · exact fun resolver chained =>
        Resolution.of_mem_chained chained (ofPrimary ungrouped.primary)
    · intro context cursor
      exact (backtracks_read input .storing primary context cursor).mono fun name =>
        mem_stored_of_ungrouped ungrouped.primary
  | sequence | firstOf => cases ungrouped.self
  | _ => exact fun context cursor signal _ => Resolution.keeps_fail ..

theorem owns_step (input : Input σ) {argument : Argument σ}
    (ungrouped : argument.Everywhere (·.isGroup = false)) : (argument.step input).Owns where
  read context cursor :=
    (backtracks_read input .storing argument context cursor).stores.mono fun _ =>
      mem_stored_of_ungrouped ungrouped
  resolve context cursor signal parsingFailed :=
    (alwaysKeeps_resolve_of_ungrouped input ungrouped context cursor signal parsingFailed).stores

theorem enters_step (input : Input σ) (argument : Argument σ) :
    (argument.step input).Enters fun value => if argument.isKeyword then none else value := by
  intro context cursor value came clear
  change (argument.read input .storing context cursor).outcome = _ at came
  show (argument.read input .storing context cursor).context.get? argument.name =
    if argument.isKeyword then none else value
  cases value with
  | none =>
    have law := backtracks_read input .storing argument context cursor
    rw [(law.absent came).1, ite_self]
    exact clear
  | some value =>
    have held := holds_read input argument context cursor value came
    split at held
    next keyword => rwa [if_pos keyword, held]
    next stored => rwa [if_neg stored]

end Argument

namespace Command

/-- The names that a command without groups returns stand in the order of its arguments. An argument
that decided when it was last read has there the value that it came to, and nothing if it was absent
or is a keyword. -/
theorem parse_in_order (command : Command σ) (input : Input σ) (cursor : Cursor)
    (context : Context)
    (ungrouped : ∀ argument ∈ command.arguments, argument.Everywhere (·.isGroup = false))
    (parsed : (command.parse input cursor).result = .ok context) :
    context.names.Sublist (command.arguments.map (·.name)) ∧
      ∀ index argument reading value, command.arguments[index]? = some argument →
        Visit.lastReading? index (command.parse input cursor).visits = some reading →
          reading.outcome = .ok value →
            context.get? argument.name = if argument.isKeyword then none else value := by
  obtain ⟨unfailed, came⟩ := unfailed_of_result parsed
  have explores := explores_explore 0 (command.arguments.map (·.step input)) .empty cursor
  have names : (command.arguments.map (·.step input)).map (·.name) =
      command.arguments.map (·.name) := by
    rw [List.map_map]
    rfl
  have own : ∀ step ∈ command.arguments.map (·.step input), step.Owns :=
    List.forall_mem_map.mpr fun argument inside => argument.owns_step input (ungrouped _ inside)
  rw [← came]
  constructor
  · obtain ⟨added, order, inside⟩ := explores.continues own
    rw [order, ← names]
    exact inside
  · intro index argument reading value here last decided
    have step : (command.arguments.map (·.step input))[index]? = some (argument.step input) := by
      simp [here]
    refine explores.get?_of_lastReading own (names ▸ command.distinct) (fun _ _ => rfl) unfailed
      step (argument.enters_step input) ?_ decided
    rwa [Nat.zero_add]

/-- What comes behind the player is read twice, as the player is only known once the default has
turned out to leave the token. -/
def giving : Command Unit where
  arguments :=
    [.literal "give" "give", .fallback (.literal "target" "all") (.text ⟨"player", none⟩ false),
      .orDefault (.integer ⟨"count", none⟩ ⟨true, 32, false⟩) (.integer ⟨true, 32, false⟩ 1)]
  distinct := by decide

theorem giving_in_order :
    ∃ context, (giving.parse ⟨(), 20⟩ (.ofList ["give", "x", "7"])).result = .ok context ∧
      context.names.Sublist ["give", "target", "count"] ∧ context.get? "give" = none ∧
      context.get? "count" = some (.integer ⟨true, 32, false⟩ 7) := by
  refine ⟨_, rfl, ?_⟩
  have ungrouped : ∀ argument ∈ giving.arguments, argument.Everywhere (·.isGroup = false) := by
    simp [giving, Argument.orDefault, Argument.Everywhere, Argument.nodes, Argument.isGroup]
  have law := parse_in_order giving ⟨(), 20⟩ (.ofList ["give", "x", "7"]) _ ungrouped rfl
  exact ⟨law.1, law.2 0 _ _ _ rfl rfl rfl, law.2 2 _ _ _ rfl rfl rfl⟩

end Command

end CommandLine
