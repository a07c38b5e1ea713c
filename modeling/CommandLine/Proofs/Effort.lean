import CommandLine.Command.Parse
import CommandLine.Proofs.Protocol
import Mathlib.Algebra.Group.Nat.Defs

/-! How much work reading a command may take.

Whoever is passed over may have everything behind it read twice: once in its
place, and once more if its resolution takes tokens. So the readings double from
one argument to the next, and no more than that, whatever the arguments do.
-/

set_option autoImplicit false

namespace CommandLine

namespace Visit

instance (index : Nat) : DecidablePred (Reads index)
  | .read other .. => inferInstanceAs (Decidable (other = index))
  | .resolved .. => inferInstanceAs (Decidable False)

def isReading : Visit → Bool
  | .read .. => true
  | .resolved .. => false

def resolves (index : Nat) : Visit → Bool
  | .read .. => false
  | .resolved other .. => other == index

theorem Prompted.resolves_eq_false {index : Nat} {earlier between : List Visit} {visit : Visit}
    (h : visit.Prompted (earlier ++ between)) (resolves : visit.resolves index = true)
    (unread : ∀ other ∈ between, ¬other.Reads index) :
    ∀ other ∈ between, other.resolves index = false := by
  cases visit with
  | read => cases resolves
  | resolved own =>
    obtain rfl : own = index := eq_of_beq resolves
    obtain ⟨before, name, given, origin, reading, since, split, -, -, behind, -⟩ := h
    have ofBetween : between <:+ earlier ++ between := List.suffix_append ..
    have ofReading : .read own name given origin reading :: since <:+ earlier ++ between :=
      ⟨before, split.symm⟩
    rcases List.suffix_or_suffix_of_suffix ofBetween ofReading with shorter | longer
    · rcases List.suffix_cons_iff.mp shorter with rfl | shorter
      · exact absurd rfl (unread _ List.mem_cons_self)
      · intro other inside
        have later := behind other (shorter.subset inside)
        cases other with
        | read => rfl
        | resolved => exact beq_eq_false_iff_ne.mpr (Nat.ne_of_gt later)
    · exact absurd rfl (unread _ (longer.subset List.mem_cons_self))

end Visit

namespace Deferral

def unread (deferral : Deferral) (later : List Visit) : List Visit :=
  later.takeWhile fun visit => !decide (visit.Reads deferral.index)

def resolutions (deferral : Deferral) (later : List Visit) : List Visit :=
  (deferral.unread later).filter (·.resolves deferral.index)

theorem unread_prefix (deferral : Deferral) (later : List Visit) : deferral.unread later <+: later :=
  List.takeWhile_prefix _

theorem not_reads_of_mem_unread {deferral : Deferral} {later : List Visit} {visit : Visit}
    (inside : visit ∈ deferral.unread later) : ¬visit.Reads deferral.index := by
  simpa using List.all_eq_true.mp List.all_takeWhile visit inside

/-- After a resolution the argument has to be read again before it is resolved once more. -/
theorem length_resolutions_le_one {deferral : Deferral} {earlier later : List Visit}
    (prompted : ∀ between visit after,
      later = between ++ visit :: after → visit.Prompted (earlier ++ between)) :
    (deferral.resolutions later).length ≤ 1 := by
  match twice : deferral.resolutions later with
  | [] => exact Nat.zero_le _
  | [_] => exact Nat.le_refl _
  | first :: second :: rest =>
    exfalso
    obtain ⟨before, onward, here, -, answersFirst, once⟩ := List.filter_eq_cons_iff.mp twice
    obtain ⟨middle, after, rfl, -, answersSecond, -⟩ := List.filter_eq_cons_iff.mp once
    have unread : deferral.unread later = (before ++ first :: middle) ++ second :: after := by
      simpa using here
    obtain ⟨tail, whole⟩ := deferral.unread_prefix later
    rw [unread, List.append_assoc, List.cons_append] at whole
    have unresolved := (prompted _ _ _ whole.symm).resolves_eq_false answersSecond
      fun visit inside => not_reads_of_mem_unread (unread ▸ List.mem_append_left _ inside)
    have answersNone := unresolved first (List.mem_append_right _ List.mem_cons_self)
    rw [answersFirst] at answersNone
    cases answersNone

theorem each_of_split {holds : Deferral → List Visit → Prop} {visits : List Visit}
    (h : ∀ earlier visit later, visits = earlier ++ visit :: later →
      ∀ deferral ∈ visit.deferral?, holds deferral later) : Each holds visits := by
  induction visits with
  | nil => trivial
  | cons visit rest ih =>
    refine ⟨h [] visit rest rfl, ih fun earlier other later split => ?_⟩
    exact h (visit :: earlier) other later (by rw [split, List.cons_append])

end Deferral

/-- What reading `count` arguments may take. -/
structure Bounded (count : Nat) (visits : List Visit) : Prop where
  reads : ∀ i, visits.countP (·.Reads i) ≤ 2 ^ i
  total : visits.countP (·.isReading) ≤ 2 ^ count - 1
  calls : visits.length ≤ 2 * (2 ^ count - 1)
  resolved : Deferral.Each (fun deferral later => (deferral.resolutions later).length ≤ 1) visits

namespace Step

variable {step : Step} {index : Nat} {context : Context} {cursor : Cursor} {signal : Signal}
  {skipping : Exploration} {later : List Visit}

@[simp] theorem reads_visit_iff (i : Nat) :
    (step.visit index context cursor).Reads i ↔ index = i := Iff.rfl

@[simp] theorem reads_answered_iff (i : Nat) :
    (step.answered context cursor signal skipping index).Reads i ↔ False := Iff.rfl

@[simp] theorem isReading_visit : (step.visit index context cursor).isReading = true := rfl

@[simp] theorem isReading_answered :
    (step.answered context cursor signal skipping index).isReading = false := rfl

@[simp] theorem countP_isReading_visits :
    (step.visits context cursor signal skipping index).countP (·.isReading) =
      skipping.visits.countP (·.isReading) + 1 := by
  simp [visits, List.countP_cons]

@[simp] theorem length_visits :
    (step.visits context cursor signal skipping index).length = skipping.visits.length + 2 := by
  simp [visits]

/-- An argument is read once, and those behind it are read twice as often at most. -/
theorem countP_reads_cons_le (last : ∀ visit ∈ later, ¬visit.Reads index)
    (behind : ∀ i, later.countP (·.Reads (index + 1 + i)) ≤ 2 ^ (i + 1)) (i : Nat) :
    (step.visit index context cursor :: later).countP (·.Reads (index + i)) ≤ 2 ^ i := by
  simp only [List.countP_cons, reads_visit_iff, decide_eq_true_eq]
  cases i with
  | zero =>
    have none : later.countP (·.Reads index) = 0 :=
      List.countP_eq_zero.mpr fun visit inside => by simpa using last visit inside
    simp [none]
  | succ i =>
    have other : index ≠ index + (i + 1) := by omega
    have shift : index + (i + 1) = index + 1 + i := by omega
    rw [if_neg other, Nat.add_zero, shift]
    exact behind i

end Step

namespace Explores

open Visit

variable {index : Nat} {steps : List Step} {context : Context} {cursor : Cursor}
  {exploration : Exploration}

theorem countP_reads_le (h : Explores index steps context cursor exploration) (i : Nat) :
    exploration.visits.countP (·.Reads (index + i)) ≤ 2 ^ i := by
  induction h generalizing i with
  | reached => exact Nat.zero_le _
  | failed =>
    exact Step.countP_reads_cons_le (fun _ none => absurd none List.not_mem_nil)
      (fun i => Nat.zero_le _) i
  | read _ others ih | dropped _ others _ ih =>
    refine Step.countP_reads_cons_le others.not_reads (fun i => ?_) i
    have once := ih i
    omega
  | unresolved _ others _ ih | finished _ others _ _ ih | resolved _ others _ _ ih =>
    refine Step.countP_reads_cons_le others.not_reads_answered (fun i => ?_) i
    have once := ih i
    simp only [List.countP_append, List.countP_singleton, Step.reads_answered_iff, decide_false,
      Bool.false_eq_true, if_false]
    omega
  | restarted _ others _ _ again ofSkipping ofOnward =>
    -- Those behind the argument are read when it is passed over, and once more from the restart.
    refine Step.countP_reads_cons_le
      (List.forall_mem_append.mpr ⟨others.not_reads_answered, again.not_reads⟩) (fun i => ?_) i
    have once := ofSkipping i
    have twice := ofOnward i
    simp only [List.countP_append, List.countP_singleton, Step.reads_answered_iff, decide_false,
      Bool.false_eq_true, if_false]
    omega

theorem countP_isReading_lt (h : Explores index steps context cursor exploration) :
    exploration.visits.countP (·.isReading) < 2 ^ steps.length := by
  induction h with
  | reached => exact Nat.one_pos
  | @failed _ _ rest =>
    have some : 0 < 2 ^ rest.length := Nat.two_pow_pos _
    simp only [List.countP_singleton, Step.isReading_visit, if_true, List.length_cons,
      Nat.pow_succ]
    omega
  | read _ _ ih | dropped _ _ _ ih =>
    simp only [Exploration.after, List.singleton_append, List.countP_cons, Step.isReading_visit,
      if_true, List.length_cons, Nat.pow_succ]
    omega
  | unresolved _ _ _ ih | finished _ _ _ _ ih | resolved _ _ _ _ ih =>
    simp only [Step.countP_isReading_visits, List.length_cons, Nat.pow_succ]
    omega
  | restarted _ _ _ _ _ ofSkipping ofOnward =>
    simp only [Exploration.after, List.countP_append, Step.countP_isReading_visits,
      List.length_cons, Nat.pow_succ] at ofSkipping ofOnward ⊢
    omega

theorem length_visits_le (h : Explores index steps context cursor exploration) :
    exploration.visits.length ≤ 2 * exploration.visits.countP (·.isReading) := by
  induction h with
  | reached => exact Nat.zero_le _
  | failed => simp [List.countP_cons]
  | read _ _ ih | dropped _ _ _ ih =>
    simp only [Exploration.after, List.singleton_append, List.length_cons, List.countP_cons,
      Step.isReading_visit, if_true]
    omega
  | unresolved _ _ _ ih | finished _ _ _ _ ih | resolved _ _ _ _ ih =>
    simp only [Step.countP_isReading_visits, Step.length_visits]
    omega
  | restarted _ _ _ _ _ ofSkipping ofOnward =>
    simp only [Exploration.after, List.countP_append, List.length_append,
      Step.countP_isReading_visits, Step.length_visits] at ofSkipping ofOnward ⊢
    omega

theorem resolved_le_one (h : Explores index steps context cursor exploration) :
    Deferral.Each (fun deferral later => (deferral.resolutions later).length ≤ 1)
      exploration.visits := by
  refine Deferral.each_of_split fun earlier visit later split deferral _ => ?_
  have prompted : ∀ between other after, later = between ++ other :: after →
      other.Prompted ((earlier ++ [visit]) ++ between) := by
    rintro between other after rfl
    have inRun : exploration.visits = ((earlier ++ [visit]) ++ between) ++ other :: after := by
      simp [split]
    exact (h.prompted []).at_split inRun
  exact Deferral.length_resolutions_le_one prompted

theorem bounded (h : Explores 0 steps context cursor exploration) :
    Bounded steps.length exploration.visits := by
  have total := Nat.le_sub_one_of_lt h.countP_isReading_lt
  have calls := h.length_visits_le
  refine ⟨fun i => ?_, total, by omega, h.resolved_le_one⟩
  have reads := h.countP_reads_le i
  rwa [Nat.zero_add] at reads

end Explores

/-- Whatever the arguments do when they are read and resolved, the work is bounded. -/
theorem Command.parse_bounded :
    (∀ (steps : List Step) (context : Context) (cursor : Cursor),
      Bounded steps.length (explore 0 steps context cursor).visits) ∧
    ∀ (σ : Type) (command : Command σ) (input : Input σ) (cursor : Cursor),
      Bounded command.arguments.length (command.parse input cursor).visits := by
  have whatever (steps : List Step) (context : Context) (cursor : Cursor) :
      Bounded steps.length (explore 0 steps context cursor).visits :=
    (explores_explore 0 steps context cursor).bounded
  refine ⟨whatever, fun σ command input cursor => ?_⟩
  have ofArguments := whatever (command.arguments.map (·.step input)) .empty cursor
  rwa [List.length_map] at ofArguments

def duel : Command Unit where
  arguments :=
    [.fallback (.literal "first" "all") (.text ⟨"player", none⟩ false),
      .fallback (.literal "second" "all") (.text ⟨"player", none⟩ false),
      .literal "go" "go"]
  distinct := by decide

/-- The bound is reached: each name is found only after everything behind it has been tried. -/
example : (duel.parse ⟨(), 20⟩ (.ofList ["steve", "alex", "go"])).visits.countP
    (·.Reads 2) = 2 ^ 2 := by decide

end CommandLine
