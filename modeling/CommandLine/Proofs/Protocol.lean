import CommandLine.Proofs.Advancing
import CommandLine.Proofs.Deferral

/-! What an argument can rely on when it is resolved.

It is given the signal that it sent when it was last read, and the context from
before that. It stands where it stood then if it is told that what followed went
wrong, and behind the last token if not. Only arguments behind it were visited in
the meantime, and of the deferrals that wait its own is the latest.
-/

set_option autoImplicit false

namespace CommandLine

namespace Visit

def cursor : Visit → Cursor
  | .read _ _ _ cursor _ => cursor
  | .resolved _ _ _ _ cursor _ _ => cursor

def Calls (step : Step) : Visit → Prop
  | .read _ name context cursor reading =>
    name = step.name ∧ reading = step.read context cursor
  | .resolved _ name parsingFailed context cursor signal resolution =>
    name = step.name ∧ resolution = step.resolve context cursor signal parsingFailed

def Fails : Visit → Prop
  | .read _ _ _ _ reading => ∃ cause, reading.outcome = .error (.error cause)
  | .resolved _ _ _ _ cursor _ resolution =>
    resolution.outcome.isOk = false ∨ leavesInput cursor resolution = true

def Restarts : Visit → Prop
  | .read .. => False
  | .resolved _ _ _ _ cursor _ resolution => consumes cursor resolution = true

/-- Reading started over before each argument that failed, later on. -/
def Recovered : List Visit → Prop
  | [] => True
  | visit :: later =>
    (visit.Fails → ∃ restart ∈ later, restart.Restarts ∧ restart.index < visit.index) ∧
      Recovered later

theorem recovered_append {earlier later : List Visit} (before : Recovered earlier)
    (after : Recovered later) : Recovered (earlier ++ later) := by
  induction earlier with
  | nil => exact after
  | cons visit rest ih =>
    refine ⟨fun fails => ?_, ih before.2⟩
    obtain ⟨restart, inside, restarts⟩ := before.1 fails
    exact ⟨restart, List.mem_append_left _ inside, restarts⟩

/-- A restart makes up for whatever failed behind it. -/
theorem recovered_append_of_restarts {earlier later : List Visit} {restart : Visit}
    (restarts : restart.Restarts) (inside : restart ∈ later)
    (behind : ∀ visit ∈ earlier, restart.index < visit.index) (after : Recovered later) :
    Recovered (earlier ++ later) := by
  induction earlier with
  | nil => exact after
  | cons visit rest ih =>
    obtain ⟨first, others⟩ := List.forall_mem_cons.mp behind
    exact ⟨fun _ => ⟨restart, List.mem_append_right _ inside, restarts, first⟩, ih others⟩

/-- What a resolution is given comes from the latest reading of its argument, which `earlier` ends
with but for visits of arguments behind it. -/
def Prompted (earlier : List Visit) : Visit → Prop
  | .read .. => True
  | .resolved index _ parsingFailed context start signal _ =>
    ∃ before name given origin reading between,
      earlier = before ++ .read index name given origin reading :: between ∧
        reading.outcome = .error (.deferred signal) ∧ reading.context = context ∧
        (∀ visit ∈ between, index < visit.index) ∧
        (parsingFailed = true → start = origin) ∧
        (parsingFailed = false → start.hasNext = false ∧ Recovered between)

/-- The visit is a call of one of the arguments from `index` on, and made no earlier than at
`start`. -/
def Within (index : Nat) (steps : List Step) (start : Cursor) (visit : Visit) : Prop :=
  start.Reaches visit.cursor ∧
    ∃ i step, steps[i]? = some step ∧ visit.index = index + i ∧ visit.Calls step

theorem Within.behind {index : Nat} {steps : List Step} {start middle : Cursor} {visit : Visit}
    (h : visit.Within (index + 1) steps middle) (forward : start.Reaches middle) {step : Step} :
    visit.Within index (step :: steps) start := by
  obtain ⟨reaches, i, other, here, same, calls⟩ := h
  refine ⟨forward.trans reaches, i + 1, other, here, ?_, calls⟩
  omega

def Throughout (holds : List Visit → Visit → Prop) : List Visit → List Visit → Prop
  | _, [] => True
  | earlier, visit :: later => holds earlier visit ∧ Throughout holds (earlier ++ [visit]) later

section

variable {holds : List Visit → Visit → Prop} {earlier : List Visit}

theorem throughout_append {visits later : List Visit} :
    Throughout holds earlier (visits ++ later) ↔
      Throughout holds earlier visits ∧ Throughout holds (earlier ++ visits) later := by
  induction visits generalizing earlier with
  | nil => simp [Throughout]
  | cons visit rest ih => simp [Throughout, ih, and_assoc]

theorem Throughout.at_split {visits before later : List Visit} {visit : Visit}
    (h : Throughout holds earlier visits) (split : visits = before ++ visit :: later) :
    holds (earlier ++ before) visit := by
  rw [split, throughout_append] at h
  exact h.2.1

end

end Visit

namespace Deferral

theorem waiting_append (earlier later : List Visit) :
    waiting (earlier ++ later) = later.foldl Visit.track (waiting earlier) :=
  List.foldl_append ..

/-- Only arguments before `index` wait, the later ones for a shorter time. -/
structure Descends (index : Nat) (waiting : List Deferral) : Prop where
  order : waiting.Pairwise fun later earlier => earlier.index < later.index
  below : ∀ deferral ∈ waiting, deferral.index < index

namespace Descends

variable {index : Nat} {waiting : List Deferral}

theorem nil (index : Nat) : Descends index [] :=
  ⟨.nil, nofun⟩

theorem succ (h : Descends index waiting) : Descends (index + 1) waiting :=
  ⟨h.order, fun deferral inside => Nat.lt_succ_of_lt (h.below deferral inside)⟩

theorem cons {deferral : Deferral} (h : Descends index waiting) (own : deferral.index = index) :
    Descends (index + 1) (deferral :: waiting) := by
  subst own
  exact ⟨List.pairwise_cons.mpr ⟨h.below, h.order⟩,
    List.forall_mem_cons.mpr ⟨Nat.lt_succ_self _, h.succ.below⟩⟩

end Descends

theorem throughout_of_stacked {visits : List Visit} (earlier : List Visit)
    (h : Stacked (waiting earlier) visits) :
    Visit.Throughout (fun before visit =>
      ∀ deferral ∈ visit.answered?, (waiting before).head? = some deferral) earlier visits := by
  induction visits generalizing earlier with
  | nil => trivial
  | cons visit later ih =>
    refine ⟨h.1, ih _ ?_⟩
    rw [waiting_append]
    exact h.2

end Deferral

namespace Step

variable {step : Step} {index : Nat} {context : Context} {cursor : Cursor} {signal : Signal}
  {skipping : Exploration} {value : Option Value}

theorem waiting_append_visit_of_read (came : (step.read context cursor).outcome = .ok value)
    (earlier : List Visit) : Deferral.waiting (earlier ++ [step.visit index context cursor]) =
      Deferral.waiting earlier := by
  simp [Deferral.waiting_append, deferral?_visit_of_read came]

theorem waiting_append_visit_of_sent
    (sent : (step.read context cursor).outcome = .error (.deferred signal))
    (earlier : List Visit) : Deferral.waiting (earlier ++ [step.visit index context cursor]) =
      step.deferral index context cursor signal :: Deferral.waiting earlier := by
  simp [Deferral.waiting_append, deferral?_visit_of_sent sent]

theorem not_fails_visit_of_ok (came : (step.read context cursor).outcome = .ok value) :
    ¬(step.visit index context cursor).Fails := by
  rintro ⟨cause, failed⟩
  rw [came] at failed
  cases failed

theorem not_fails_visit_of_sent
    (sent : (step.read context cursor).outcome = .error (.deferred signal)) :
    ¬(step.visit index context cursor).Fails := by
  rintro ⟨cause, failed⟩
  rw [sent] at failed
  cases failed

theorem not_fails_answered (came : step.verdict context cursor signal skipping = .ok value) :
    ¬(step.answered context cursor signal skipping index).Fails := by
  rintro (failed | ignores)
  · rw [outcome_of_verdict came] at failed
    cases failed
  · rw [verdict, if_pos ignores] at came
    cases came

section

variable {rest : List Step}

theorem within_visit : (step.visit index context cursor).Within index (step :: rest) cursor :=
  ⟨.refl _, 0, step, rfl, rfl, rfl, rfl⟩

theorem within_visits (forward : cursor.Reaches skipping.cursor)
    (others : ∀ visit ∈ skipping.visits, visit.Within (index + 1) rest cursor) :
    ∀ visit ∈ step.visits context cursor signal skipping index,
      visit.Within index (step :: rest) cursor := by
  refine List.forall_mem_cons.mpr ⟨within_visit, List.forall_mem_append.mpr ⟨?_, ?_⟩⟩
  · exact fun visit inside => (others visit inside).behind (.refl _)
  · refine List.forall_mem_singleton.mpr ⟨Exploration.reaches_start forward, 0, step, ?_⟩
    exact ⟨rfl, rfl, rfl, rfl⟩

end

end Step

namespace Explores

open Deferral Visit

variable {index : Nat} {steps : List Step} {context : Context} {cursor : Cursor}
  {exploration : Exploration}

theorem recovered (h : Explores index steps context cursor exploration)
    (unfailed : exploration.ending.isFailed = false) : Recovered exploration.visits := by
  induction h with
  | reached => trivial
  | failed => cases unfailed
  | unresolved => cases unfailed
  | read came _ ih =>
    exact ⟨fun fails => absurd fails (Step.not_fails_visit_of_ok came), ih unfailed⟩
  | dropped sent _ _ ih =>
    exact ⟨fun fails => absurd fails (Step.not_fails_visit_of_sent sent), ih unfailed⟩
  | finished passed others came _ ih =>
    cases others with
    | reached =>
      refine ⟨fun fails => absurd fails (Step.not_fails_visit_of_sent passed.sent), ?_, trivial⟩
      exact fun fails => absurd fails (Step.not_fails_answered came)
  | resolved passed others came _ ih =>
    refine ⟨fun fails => absurd fails (Step.not_fails_visit_of_sent passed.sent), ?_⟩
    refine recovered_append (ih unfailed) ⟨?_, trivial⟩
    exact fun fails => absurd fails (Step.not_fails_answered came)
  | @restarted index step _ _ context cursor signal skipping onward _ passed others came consumes
      _ _ ofOnward =>
    refine ⟨fun fails => absurd fails (Step.not_fails_visit_of_sent passed.sent), ?_⟩
    show Recovered ((skipping.visits ++ [_]) ++ onward.visits)
    rw [List.append_assoc]
    -- Whatever failed while the argument was passed over lies behind it.
    have restarts : (step.answered context cursor signal skipping index).Restarts := consumes
    refine recovered_append_of_restarts restarts List.mem_cons_self ?_ ⟨?_, ofOnward unfailed⟩
    · exact fun visit inside => (others.index_mem visit inside).1
    · exact fun fails => absurd fails (Step.not_fails_answered came)

section

variable {step : Step} {rest : List Step} {signal : Signal} {skipping : Exploration}
  (others : Explores (index + 1) rest (step.read context cursor).context cursor skipping)
  (passed : Passed step context cursor signal skipping)
include others passed

theorem prompted_visits
    (ofSkipping : ∀ earlier, Throughout (fun before visit => visit.Prompted before) earlier
      skipping.visits) (earlier : List Visit) :
    Throughout (fun before visit => visit.Prompted before) earlier
      (step.visits context cursor signal skipping index) := by
  refine ⟨trivial, throughout_append.mpr ⟨ofSkipping _, ?_, trivial⟩⟩
  refine ⟨earlier, step.name, context, cursor, _, skipping.visits, by simp [Step.visit],
    passed.sent, rfl, fun visit inside => (others.index_mem visit inside).1,
    Exploration.start_of_wrong, fun right => ?_⟩
  obtain ⟨unfailed, done⟩ := Bool.or_eq_false_iff.mp right
  rw [Exploration.start_of_right right]
  exact ⟨done, others.recovered unfailed⟩

theorem descends_visits {earlier : List Visit} (ordered : Descends index (waiting earlier))
    (ofSkipping : ∀ earlier, Descends (index + 1) (waiting earlier) →
      Throughout (fun before visit => Descends (visit.index + 1) (waiting before)) earlier
        skipping.visits) :
    Throughout (fun before visit => Descends (visit.index + 1) (waiting before)) earlier
      (step.visits context cursor signal skipping index) := by
  have own : Descends (index + 1) (waiting (earlier ++ [step.visit index context cursor])) := by
    rw [Step.waiting_append_visit_of_sent passed.sent]
    exact ordered.cons rfl
  refine ⟨ordered.succ, throughout_append.mpr ⟨ofSkipping _ own, ?_, trivial⟩⟩
  show Descends (index + 1) (waiting (_ ++ skipping.visits))
  rw [waiting_append, others.balanced passed]
  exact own

end

/-- Whoever is resolved was prompted by its own latest reading. -/
theorem prompted (h : Explores index steps context cursor exploration) (earlier : List Visit) :
    Throughout (fun before visit => visit.Prompted before) earlier exploration.visits := by
  induction h generalizing earlier with
  | reached => trivial
  | failed => exact ⟨trivial, trivial⟩
  | read _ _ ih | dropped _ _ _ ih => exact ⟨trivial, ih _⟩
  | unresolved passed others _ ih | finished passed others _ _ ih | resolved passed others _ _ ih =>
    exact others.prompted_visits passed ih earlier
  | restarted passed others _ _ _ ofSkipping ofOnward =>
    exact throughout_append.mpr ⟨others.prompted_visits passed ofSkipping earlier, ofOnward _⟩

/-- Nothing behind an argument waits when it is visited, and so the deferrals that wait are always
in the order of their arguments. -/
theorem descends (h : Explores index steps context cursor exploration) (earlier : List Visit)
    (ordered : Descends index (waiting earlier)) :
    Throughout (fun before visit => Descends (visit.index + 1) (waiting before)) earlier
      exploration.visits := by
  induction h generalizing earlier with
  | reached => trivial
  | failed => exact ⟨ordered.succ, trivial⟩
  | read came _ ih =>
    refine ⟨ordered.succ, ih _ ?_⟩
    rw [Step.waiting_append_visit_of_read came]
    exact ordered.succ
  | dropped sent _ _ ih =>
    refine ⟨ordered.succ, ih _ ?_⟩
    rw [Step.waiting_append_visit_of_sent sent]
    exact ordered.cons rfl
  | unresolved passed others _ ih | finished passed others _ _ ih | resolved passed others _ _ ih =>
    exact others.descends_visits passed ordered ih
  | restarted passed others _ _ _ ofSkipping ofOnward =>
    refine throughout_append.mpr
      ⟨others.descends_visits passed ordered ofSkipping, ofOnward _ ?_⟩
    rw [waiting_append, Step.foldl_track_visits passed.sent (others.balanced passed)]
    exact ordered.succ

theorem within (h : Explores index steps context cursor exploration)
    (advance : ∀ step ∈ steps, step.Advances) :
    ∀ visit ∈ exploration.visits, visit.Within index steps cursor := by
  induction h with
  | reached => nofun
  | failed => exact List.forall_mem_singleton.mpr Step.within_visit
  | read _ _ ih =>
    obtain ⟨head, behind⟩ := List.forall_mem_cons.mp advance
    refine List.forall_mem_cons.mpr ⟨Step.within_visit, fun visit inside => ?_⟩
    exact (ih behind visit inside).behind (head.read ..)
  | dropped _ _ _ ih =>
    refine List.forall_mem_cons.mpr ⟨Step.within_visit, fun visit inside => ?_⟩
    exact (ih (List.forall_mem_cons.mp advance).2 visit inside).behind (.refl _)
  | unresolved _ others _ ih | finished _ others _ _ ih | resolved _ others _ _ ih =>
    have behind := (List.forall_mem_cons.mp advance).2
    exact Step.within_visits (others.reaches behind) (ih behind)
  | restarted _ others _ _ _ ofSkipping ofOnward =>
    obtain ⟨head, behind⟩ := List.forall_mem_cons.mp advance
    have forward := others.reaches behind
    refine List.forall_mem_append.mpr
      ⟨Step.within_visits forward (ofSkipping behind), fun visit inside => ?_⟩
    exact (ofOnward behind visit inside).behind (head.answer forward)

end Explores

namespace Command

open Deferral

variable {σ : Type}

theorem calls_of_mem_visits {command : Command σ} {input : Input σ} {cursor : Cursor}
    {visit : Visit} (inside : visit ∈ (command.parse input cursor).visits) :
    cursor.Reaches visit.cursor ∧
      ∃ argument, command.arguments[visit.index]? = some argument ∧
        visit.Calls (argument.step input) := by
  have advance := Argument.advances_steps input command.arguments
  obtain ⟨reaches, i, step, here, same, calls⟩ :=
    (explores_explore 0 _ .empty cursor).within advance visit inside
  rw [Nat.zero_add] at same
  rw [List.getElem?_map, Option.map_eq_some_iff] at here
  obtain ⟨argument, at_, rfl⟩ := here
  exact ⟨reaches, argument, same ▸ at_, calls⟩

/-- What the resolution of an argument is told and given, in a run that began at `cursor` and made
the visits `earlier` before. -/
structure InTurn (command : Command σ) (input : Input σ) (cursor : Cursor) (earlier : List Visit)
    (index : Nat) (parsingFailed : Bool) (context : Context) (start : Cursor) (signal : Signal) :
    Prop where
  /-- The signal is what the argument sent when it was read last, and the context is that of this
  reading. The cursor stands there if what followed went wrong, and behind the last token if not;
  then reading has started over before each argument that failed in the meantime. -/
  prompted : ∃ argument before origin between,
    command.arguments[index]? = some argument ∧
      earlier = before ++ .read index argument.name context origin
        (argument.read input .storing context origin) :: between ∧
      (∀ visit ∈ between, index < visit.index) ∧
      (argument.read input .storing context origin).outcome = .error (.deferred signal) ∧
      (parsingFailed = true → start = origin) ∧
      (parsingFailed = false → start = cursor.toEnd ∧ Visit.Recovered between)
  /-- The deferral is the latest that waits, and nothing behind the argument waits. -/
  latest : ∃ others, waiting earlier = ⟨index, context, signal⟩ :: others ∧
    ∀ other ∈ others, other.index < index

/-- Every resolution that a run calls for comes in its turn. -/
theorem parse_resolves_in_turn (command : Command σ) (input : Input σ) (cursor : Cursor)
    {earlier later : List Visit} {index : Nat} {name : String} {parsingFailed : Bool}
    {context : Context} {start : Cursor} {signal : Signal} {resolution : Resolution}
    (call : (command.parse input cursor).visits =
      earlier ++ .resolved index name parsingFailed context start signal resolution :: later) :
    command.InTurn input cursor earlier index parsingFailed context start signal := by
  have explores := explores_explore 0 (command.arguments.map (·.step input)) .empty cursor
  constructor
  · obtain ⟨before, otherName, given, origin, reading, between, rfl, sent, same, behind, wrong,
      right⟩ := (explores.prompted []).at_split call
    have read : .read index otherName given origin reading ∈
        (command.parse input cursor).visits := by
      rw [call]
      simp
    have resolved : .resolved index name parsingFailed context start signal resolution ∈
        (command.parse input cursor).visits := by
      rw [call]
      simp
    obtain ⟨-, argument, here, rfl, rfl⟩ := calls_of_mem_visits read
    -- An argument that puts off its decision has stored nothing.
    have kept := (Argument.backtracks_read input .storing argument given origin).failed _ sent
    obtain rfl : given = context := kept.symm.trans same
    refine ⟨argument, before, origin, between, here, rfl, behind, sent, wrong, fun told => ?_⟩
    obtain ⟨done, recovered⟩ := right told
    exact ⟨(calls_of_mem_visits resolved).1.eq_toEnd done, recovered⟩
  · have latest := (throughout_of_stacked [] (explores.stacked [])).at_split call
    have ordered := ((explores.descends [] (.nil 0)).at_split call).order
    obtain ⟨others, shape⟩ := List.head?_eq_some_iff.mp (latest _ rfl)
    rw [List.nil_append] at shape ordered
    rw [shape] at ordered
    exact ⟨others, shape, (List.pairwise_cons.mp ordered).1⟩

def pay : Command Unit where
  arguments :=
    [.orDefault (.boolean ⟨"silent", none⟩) (.boolean false),
      .fallback (.literal "target" "all") (.text ⟨"player", none⟩ false),
      .integer ⟨"amount", none⟩ ⟨true, 32, false⟩]
  distinct := by decide

/-- The amount cannot be read from the name of a player, which only a restart makes up for. -/
theorem parse_pay_resolves_in_turn :
    ∃ earlier context start signal resolution,
      (pay.parse ⟨(), 20⟩ (.ofList ["steve", "3"])).visits =
        earlier ++ [.resolved 0 "silent" false context start signal resolution] ∧
      earlier.length = 5 ∧
      pay.InTurn ⟨(), 20⟩ (.ofList ["steve", "3"]) earlier 0 false context start signal := by
  have call : (pay.parse ⟨(), 20⟩ (.ofList ["steve", "3"])).visits =
      (pay.parse ⟨(), 20⟩ (.ofList ["steve", "3"])).visits.take 5 ++
        [.resolved 0 "silent" false _ _ _ _] := rfl
  exact ⟨_, _, _, _, _, call, rfl, parse_resolves_in_turn pay _ _ call⟩

end Command

end CommandLine
