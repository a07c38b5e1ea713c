import CommandLine.Proofs.Exploring

/-! What becomes of deferrals.

The visits of a run tell which deferrals wait at any time: reading adds one, and
a resolution answers the latest. Each is answered before the run ends, unless a
resolution of the last argument ends the run at once.
-/

set_option autoImplicit false

namespace CommandLine

structure Deferral where
  index : Nat
  context : Context
  signal : Signal

namespace Visit

def deferral? : Visit → Option Deferral
  | .read index _ _ _ reading =>
    match reading.outcome with
    | .error (.deferred signal) => some ⟨index, reading.context, signal⟩
    | _ => none
  | .resolved .. => none

def index : Visit → Nat
  | .read index .. => index
  | .resolved index .. => index

def Reads (index : Nat) : Visit → Prop
  | .read other .. => other = index
  | .resolved .. => False

theorem index_of_deferral? {visit : Visit} {deferral : Deferral}
    (here : deferral ∈ visit.deferral?) : deferral.index = visit.index := by
  unfold deferral? at here
  split at here
  next =>
    split at here
    next => exact Option.some.inj here ▸ rfl
    next => cases here
  next => cases here

theorem index_of_reads {visit : Visit} {index : Nat} (h : visit.Reads index) :
    visit.index = index := by
  cases visit with
  | read => exact h
  | resolved => exact h.elim

def answered? : Visit → Option Deferral
  | .read .. => none
  | .resolved index _ _ context _ signal _ => some ⟨index, context, signal⟩

def Succeeds : Visit → Prop
  | .read _ _ _ _ reading => reading.outcome.isOk = true
  | .resolved _ _ _ _ _ _ resolution => resolution.outcome.isOk = true

/-- The deferrals that wait after one more visit, the latest first. -/
def track (waiting : List Deferral) : Visit → List Deferral
  | .resolved .. => waiting.tail
  | visit => visit.deferral?.toList ++ waiting

end Visit

namespace Deferral

def waiting (visits : List Visit) : List Deferral :=
  visits.foldl Visit.track []

/-- Every deferral of a run has a property that depends on what was visited later. -/
def Each (holds : Deferral → List Visit → Prop) : List Visit → Prop
  | [] => True
  | visit :: later => (∀ deferral ∈ visit.deferral?, holds deferral later) ∧ Each holds later

section

variable {holds : Deferral → List Visit → Prop} {earlier later : List Visit}

theorem each_append
    (grows : ∀ deferral visits, holds deferral visits → holds deferral (visits ++ later))
    (before : Each holds earlier) (after : Each holds later) : Each holds (earlier ++ later) := by
  induction earlier with
  | nil => exact after
  | cons visit rest ih =>
    exact ⟨fun deferral here => grows deferral rest (before.1 deferral here), ih before.2⟩

/-- Whatever happens in `later` may settle all deferrals before it at once. -/
theorem each_append_of_forall
    (settles : ∀ visit ∈ earlier, ∀ deferral ∈ visit.deferral?,
      ∀ visits, holds deferral (visits ++ later))
    (after : Each holds later) : Each holds (earlier ++ later) := by
  induction earlier with
  | nil => exact after
  | cons visit rest ih =>
    exact ⟨fun deferral here => settles visit List.mem_cons_self deferral here rest,
      ih fun other inside => settles other (List.mem_cons_of_mem _ inside)⟩

theorem each_mono {holds' : Deferral → List Visit → Prop} {visits : List Visit}
    (implies : ∀ deferral visits, holds deferral visits → holds' deferral visits)
    (h : Each holds visits) : Each holds' visits := by
  induction visits with
  | nil => trivial
  | cons visit rest ih => exact ⟨fun deferral here => implies _ _ (h.1 deferral here), ih h.2⟩

end

/-- Each resolution answers the deferral that has waited the shortest. -/
def Stacked (waiting : List Deferral) : List Visit → Prop
  | [] => True
  | visit :: later =>
    (∀ deferral ∈ visit.answered?, waiting.head? = some deferral) ∧
      Stacked (visit.track waiting) later

theorem stacked_append {waiting : List Deferral} {earlier later : List Visit}
    (before : Stacked waiting earlier)
    (after : Stacked (earlier.foldl Visit.track waiting) later) :
    Stacked waiting (earlier ++ later) := by
  induction earlier generalizing waiting with
  | nil => exact after
  | cons visit rest ih => exact ⟨before.1, ih before.2 after⟩

def Handed (deferral : Deferral) (later : List Visit) : Prop :=
  ∃ visit ∈ later, visit.answered? = some deferral

def Settled (deferral : Deferral) (later : List Visit) : Prop :=
  (∃ visit ∈ later, visit.Reads deferral.index) ∨
    ∃ visit ∈ later, visit.answered? = some deferral ∧ visit.Succeeds

theorem Handed.append {deferral : Deferral} {later : List Visit} (h : deferral.Handed later)
    (more : List Visit) : deferral.Handed (later ++ more) := by
  obtain ⟨visit, inside, answers⟩ := h
  exact ⟨visit, List.mem_append_left _ inside, answers⟩

theorem Settled.append {deferral : Deferral} {later : List Visit} (h : deferral.Settled later)
    (more : List Visit) : deferral.Settled (later ++ more) := by
  rcases h with ⟨visit, inside, reads⟩ | ⟨visit, inside, answers⟩
  · exact .inl ⟨visit, List.mem_append_left _ inside, reads⟩
  · exact .inr ⟨visit, List.mem_append_left _ inside, answers⟩

end Deferral

namespace Step

variable {step : Step} {index : Nat} {context : Context} {cursor : Cursor} {signal : Signal}
  {skipping : Exploration}

def deferral (step : Step) (index : Nat) (context : Context) (cursor : Cursor) (signal : Signal) :
    Deferral :=
  ⟨index, (step.read context cursor).context, signal⟩

theorem deferral?_visit_of_sent
    (sent : (step.read context cursor).outcome = .error (.deferred signal)) :
    (step.visit index context cursor).deferral? =
      some (step.deferral index context cursor signal) := by
  simp [visit, Visit.deferral?, deferral, sent]

theorem deferral?_visit_of_read {value : Option Value}
    (came : (step.read context cursor).outcome = .ok value) :
    (step.visit index context cursor).deferral? = none := by
  simp [visit, Visit.deferral?, came]

theorem deferral?_visit_of_failed {cause : ArgumentError}
    (came : (step.read context cursor).outcome = .error (.error cause)) :
    (step.visit index context cursor).deferral? = none := by
  simp [visit, Visit.deferral?, came]

@[simp] theorem index_visit : (step.visit index context cursor).index = index := rfl

@[simp] theorem index_answered :
    (step.answered context cursor signal skipping index).index = index := rfl

theorem succeeds_visit {value : Option Value}
    (came : (step.read context cursor).outcome = .ok value) :
    (step.visit index context cursor).Succeeds := by
  simp only [Visit.Succeeds, visit, came]
  rfl

theorem succeeds_answered {value : Option Value}
    (came : step.verdict context cursor signal skipping = .ok value) :
    (step.answered context cursor signal skipping index).Succeeds := by
  simp only [Visit.Succeeds, answered, outcome_of_verdict came]
  rfl

@[simp] theorem track_visit (waiting : List Deferral) :
    Visit.track waiting (step.visit index context cursor) =
      (step.visit index context cursor).deferral?.toList ++ waiting := rfl

@[simp] theorem track_answered (waiting : List Deferral) :
    Visit.track waiting (step.answered context cursor signal skipping index) = waiting.tail := rfl

theorem index_mem_visits {rest : List Step}
    (others : ∀ visit ∈ skipping.visits,
      index + 1 ≤ visit.index ∧ visit.index < index + 1 + rest.length) :
    ∀ visit ∈ step.visits context cursor signal skipping index,
      index ≤ visit.index ∧ visit.index < index + (step :: rest).length := by
  intro visit inside
  simp only [visits, List.mem_cons, List.mem_append, List.not_mem_nil, or_false] at inside
  rcases inside with rfl | behind | rfl
  · simp
  · have bounds := others visit behind
    simp only [List.length_cons]
    omega
  · simp

theorem reads_visit_or {rest : List Step} {later : List Visit}
    (behind : ∀ i, index + 1 ≤ i → i < index + 1 + rest.length →
      ∃ visit ∈ later, visit.Reads i) :
    ∀ i, index ≤ i → i < index + (step :: rest).length →
      ∃ visit ∈ step.visit index context cursor :: later, visit.Reads i := by
  intro i first last
  rcases Nat.eq_or_lt_of_le first with rfl | after
  · exact ⟨_, List.mem_cons_self, rfl⟩
  · have bound : i < index + 1 + rest.length := by
      simp only [List.length_cons] at last
      omega
    obtain ⟨visit, inside, reads⟩ := behind i after bound
    exact ⟨visit, List.mem_cons_of_mem _ inside, reads⟩

theorem handed_answered {before : List Visit} :
    (step.deferral index context cursor signal).Handed
      (before ++ [step.answered context cursor signal skipping index]) :=
  ⟨_, List.mem_append_right _ List.mem_cons_self, rfl⟩

theorem settled_answered {before : List Visit} {value : Option Value}
    (came : step.verdict context cursor signal skipping = .ok value) :
    (step.deferral index context cursor signal).Settled
      (before ++ [step.answered context cursor signal skipping index]) :=
  .inr ⟨_, List.mem_append_right _ List.mem_cons_self, rfl, succeeds_answered came⟩

/-- Whatever was put off behind the argument has been answered before it is. -/
theorem foldl_track_visits
    (sent : (step.read context cursor).outcome = .error (.deferred signal))
    (balanced : ∀ waiting, skipping.visits.foldl Visit.track waiting = waiting)
    (waiting : List Deferral) :
    (step.visits context cursor signal skipping index).foldl Visit.track waiting = waiting := by
  simp [visits, deferral?_visit_of_sent sent, balanced]

end Step

namespace Explores

open Deferral

variable {index : Nat} {steps : List Step} {context : Context} {cursor : Cursor}
  {exploration : Exploration}

/-- Reading leaves alone what waited before, and unless it was cut short, nothing of its own
waits. -/
theorem foldl_track (h : Explores index steps context cursor exploration) :
    ∃ lost, (∀ before, exploration.visits.foldl Visit.track before = lost ++ before) ∧
      (exploration.ending.isFinished = false → lost = []) := by
  induction h with
  | reached => exact ⟨[], fun _ => rfl, fun _ => rfl⟩
  | read came _ ih =>
    obtain ⟨lost, above, none⟩ := ih
    refine ⟨lost, fun before => ?_, none⟩
    simp [Exploration.after, Step.deferral?_visit_of_read came, above]
  | failed came =>
    refine ⟨[], fun before => ?_, fun _ => rfl⟩
    simp [Step.deferral?_visit_of_failed came]
  | @dropped index step _ context cursor signal _ sent _ finished ih =>
    obtain ⟨lost, above, -⟩ := ih
    -- Nobody answers this deferral any more: it stays below those that were lost behind it.
    refine ⟨lost ++ [step.deferral index context cursor signal], fun before => ?_,
      fun unfinished => ?_⟩
    · simp [Exploration.after, Step.deferral?_visit_of_sent sent, above]
    · exact absurd (finished.symm.trans unfinished) Bool.noConfusion
  | unresolved passed _ _ ih | finished passed _ _ _ ih | resolved passed _ _ _ ih =>
    obtain ⟨lost, above, none⟩ := ih
    -- Those behind the argument leave nothing waiting, so the resolution finds its deferral on top.
    cases none passed.unfinished
    exact ⟨[], Step.foldl_track_visits passed.sent above, fun _ => rfl⟩
  | restarted passed _ _ _ _ ofSkipping ofOnward =>
    obtain ⟨lost, above, none⟩ := ofSkipping
    obtain ⟨later, aboveOnward, noneOnward⟩ := ofOnward
    cases none passed.unfinished
    -- Only what the second reading loses is lost.
    refine ⟨later, fun before => ?_, noneOnward⟩
    rw [Exploration.after, List.foldl_append, Step.foldl_track_visits passed.sent above]
    exact aboveOnward before

theorem foldl_track_eq (h : Explores index steps context cursor exploration)
    (before : List Deferral) :
    exploration.visits.foldl Visit.track before = waiting exploration.visits ++ before := by
  obtain ⟨lost, above, -⟩ := h.foldl_track
  rw [waiting, above, above, List.append_nil]

theorem waiting_eq_nil (h : Explores index steps context cursor exploration)
    (unfinished : exploration.ending.isFinished = false) : waiting exploration.visits = [] := by
  obtain ⟨lost, above, none⟩ := h.foldl_track
  rw [waiting, above, none unfinished, List.append_nil]

theorem waiting_read {step : Step} {value : Option Value}
    (came : (step.read context cursor).outcome = .ok value) (onward : Exploration) :
    waiting (onward.after [step.visit index context cursor]).visits = waiting onward.visits := by
  simp [waiting, Exploration.after, Step.deferral?_visit_of_read came]

theorem waiting_dropped {step : Step} {rest : List Step} {signal : Signal} {skipping : Exploration}
    (sent : (step.read context cursor).outcome = .error (.deferred signal))
    (others : Explores (index + 1) rest (step.read context cursor).context cursor skipping) :
    waiting (skipping.after [step.visit index context cursor]).visits =
      waiting skipping.visits ++ [step.deferral index context cursor signal] := by
  rw [← others.foldl_track_eq]
  simp [waiting, Exploration.after, Step.deferral?_visit_of_sent sent]

section

variable {step : Step} {rest : List Step} {signal : Signal} {skipping : Exploration}
  (others : Explores (index + 1) rest (step.read context cursor).context cursor skipping)
  (passed : Passed step context cursor signal skipping)
include others passed

theorem balanced (before : List Deferral) :
    skipping.visits.foldl Visit.track before = before := by
  rw [others.foldl_track_eq, others.waiting_eq_nil passed.unfinished, List.nil_append]

theorem waiting_restarted (onward : Exploration) :
    waiting (onward.after (step.visits context cursor signal skipping index)).visits =
      waiting onward.visits := by
  rw [waiting, Exploration.after, List.foldl_append,
    Step.foldl_track_visits passed.sent (others.balanced passed)]
  rfl

theorem stacked_visits (ofSkipping : ∀ before, Stacked before skipping.visits)
    (before : List Deferral) :
    Stacked before (step.visits context cursor signal skipping index) := by
  refine ⟨nofun, stacked_append (ofSkipping _) ⟨fun deferral here => ?_, trivial⟩⟩
  rw [others.balanced passed, Step.track_visit, Step.deferral?_visit_of_sent passed.sent]
  exact here

/-- An argument's own deferral comes to what its resolution makes of it, and with nothing left
to wait, those behind it have come to it before. -/
theorem each_visits {holds : Deferral → List Visit → Prop}
    (grows : ∀ deferral visits more, holds deferral visits → holds deferral (visits ++ more))
    (own : holds (step.deferral index context cursor signal)
      (skipping.visits ++ [step.answered context cursor signal skipping index]))
    (ofSkipping : Each (fun deferral later =>
      deferral ∈ waiting skipping.visits ∨ holds deferral later) skipping.visits) :
    Each holds (step.visits context cursor signal skipping index) := by
  rw [others.waiting_eq_nil passed.unfinished] at ofSkipping
  refine ⟨?_, each_append (fun _ _ => grows _ _ _) (each_mono ?_ ofSkipping) ⟨nofun, trivial⟩⟩
  · simpa [Step.deferral?_visit_of_sent passed.sent] using own
  · exact fun deferral later either => either.resolve_left List.not_mem_nil

end

theorem stacked (h : Explores index steps context cursor exploration) (before : List Deferral) :
    Stacked before exploration.visits := by
  induction h generalizing before with
  | reached => trivial
  | failed => exact ⟨nofun, trivial⟩
  | read _ _ ih | dropped _ _ _ ih => exact ⟨nofun, ih _⟩
  | unresolved passed others _ ih | finished passed others _ _ ih | resolved passed others _ _ ih =>
    exact others.stacked_visits passed ih before
  | restarted passed others _ _ _ ofSkipping ofOnward =>
    exact stacked_append (others.stacked_visits passed ofSkipping before) (ofOnward _)

theorem index_mem (h : Explores index steps context cursor exploration) :
    ∀ visit ∈ exploration.visits, index ≤ visit.index ∧ visit.index < index + steps.length := by
  induction h with
  | reached => nofun
  | failed => simp
  | read _ _ ih | dropped _ _ _ ih =>
    intro visit inside
    rcases List.mem_cons.mp inside with rfl | behind
    · simp
    · have bounds := ih visit behind
      simp only [List.length_cons]
      omega
  | unresolved _ _ _ ih | finished _ _ _ _ ih | resolved _ _ _ _ ih =>
    exact Step.index_mem_visits ih
  | restarted _ _ _ _ _ ofSkipping ofOnward =>
    intro visit inside
    rcases List.mem_append.mp inside with before | behind
    · exact Step.index_mem_visits ofSkipping visit before
    · have bounds := ofOnward visit behind
      simp only [List.length_cons] at bounds ⊢
      omega

theorem index_ne (h : Explores (index + 1) steps context cursor exploration) :
    ∀ visit ∈ exploration.visits, visit.index ≠ index := by
  intro visit inside
  have bound := (h.index_mem visit inside).1
  omega

theorem not_reads (h : Explores (index + 1) steps context cursor exploration) :
    ∀ visit ∈ exploration.visits, ¬visit.Reads index :=
  fun visit inside reads => h.index_ne visit inside (Visit.index_of_reads reads)

theorem not_reads_answered {step : Step} {rest : List Step} {signal : Signal}
    {skipping : Exploration}
    (others : Explores (index + 1) rest (step.read context cursor).context cursor skipping) :
    ∀ visit ∈ skipping.visits ++ [step.answered context cursor signal skipping index],
      ¬visit.Reads index :=
  List.forall_mem_append.mpr ⟨others.not_reads, List.forall_mem_singleton.mpr id⟩

/-- Unless it fails, a run reads every argument. -/
theorem reads_all (h : Explores index steps context cursor exploration)
    (unfailed : exploration.ending.isFailed = false) :
    ∀ i, index ≤ i → i < index + steps.length → ∃ visit ∈ exploration.visits, visit.Reads i := by
  induction h with
  | reached => simp only [List.length_nil]; omega
  | failed => cases unfailed
  | unresolved => cases unfailed
  | read _ _ ih | dropped _ _ _ ih => exact Step.reads_visit_or (ih unfailed)
  | finished => exact Step.reads_visit_or fun i first last => absurd last (Nat.not_lt.mpr first)
  | resolved _ _ _ _ ih =>
    -- The ending is that of the reading in which the argument was passed over.
    refine Step.reads_visit_or fun i first last => ?_
    obtain ⟨visit, inside, reads⟩ := ih unfailed i first last
    exact ⟨visit, List.mem_append_left _ inside, reads⟩
  | restarted _ _ _ _ _ _ ofOnward =>
    -- What was read before it started over does not count, as that may have failed.
    refine Step.reads_visit_or fun i first last => ?_
    obtain ⟨visit, inside, reads⟩ := ofOnward unfailed i first last
    exact ⟨visit, List.mem_append_right _ inside, reads⟩

/-- Every deferral is handed over later, but for those that still wait in the end. -/
theorem each_handed (h : Explores index steps context cursor exploration) :
    Each (fun deferral later => deferral ∈ waiting exploration.visits ∨ deferral.Handed later)
      exploration.visits := by
  induction h with
  | reached => trivial
  | failed came => exact ⟨by simp [Step.deferral?_visit_of_failed came], trivial⟩
  | read came _ ih =>
    rw [waiting_read came]
    exact ⟨by simp [Step.deferral?_visit_of_read came], ih⟩
  | dropped sent others _ ih =>
    rw [waiting_dropped sent others]
    refine ⟨?_, each_mono ?_ ih⟩
    · simp [Step.deferral?_visit_of_sent sent]
    · exact fun deferral later => Or.imp_left fun lost => List.mem_append_left _ lost
  | unresolved passed others _ ih | finished passed others _ _ ih | resolved passed others _ _ ih =>
    exact each_mono (fun _ _ => .inr) (others.each_visits passed
      (fun _ _ more handed => handed.append more) Step.handed_answered ih)
  | restarted passed others _ _ _ ofSkipping ofOnward =>
    rw [others.waiting_restarted passed]
    have before := others.each_visits passed (fun _ _ more handed => handed.append more)
      Step.handed_answered ofSkipping
    refine each_append ?_ (each_mono (fun _ _ => .inr) before) ofOnward
    exact fun deferral visits => Or.imp_right fun handed => handed.append _

/-- In a run that does not fail, every deferral that does not wait in the end was settled: where a
resolution made it start over, everything that was passed over is read again. -/
theorem each_settled (h : Explores index steps context cursor exploration)
    (unfailed : exploration.ending.isFailed = false) :
    Each (fun deferral later => deferral ∈ waiting exploration.visits ∨ deferral.Settled later)
      exploration.visits := by
  induction h with
  | reached => trivial
  | failed => cases unfailed
  | unresolved => cases unfailed
  | read came _ ih =>
    rw [waiting_read came]
    exact ⟨by simp [Step.deferral?_visit_of_read came], ih unfailed⟩
  | dropped sent others _ ih =>
    rw [waiting_dropped sent others]
    refine ⟨?_, each_mono ?_ (ih unfailed)⟩
    · simp [Step.deferral?_visit_of_sent sent]
    · exact fun deferral later => Or.imp_left fun lost => List.mem_append_left _ lost
  | finished passed others came _ ih =>
    -- There is nothing behind the last argument that could have failed.
    cases others with
    | reached =>
      exact each_mono (fun _ _ => .inr) ((Explores.reached ..).each_visits passed
        (fun _ _ more settled => settled.append more) (Step.settled_answered came) (ih rfl))
  | resolved passed others came _ ih =>
    exact each_mono (fun _ _ => .inr) (others.each_visits passed
      (fun _ _ more settled => settled.append more) (Step.settled_answered came) (ih unfailed))
  | restarted passed others came _ again _ ofOnward =>
    rw [others.waiting_restarted passed]
    -- Those passed over may have failed to be resolved, so that they must be read again.
    refine ⟨?_, each_append_of_forall ?_ (ofOnward unfailed)⟩
    · simpa [Step.deferral?_visit_of_sent passed.sent] using
        Or.inr ((Step.settled_answered came).append _)
    · intro visit inside deferral here between
      rcases List.mem_append.mp inside with skipped | own
      · obtain ⟨first, last⟩ := others.index_mem visit skipped
        obtain ⟨other, member, reads⟩ := again.reads_all unfailed visit.index first last
        rw [← Visit.index_of_deferral? here] at reads
        exact .inr (.inl ⟨other, List.mem_append_right _ member, reads⟩)
      · rw [List.mem_singleton.mp own] at here
        cases here

end Explores

end CommandLine
