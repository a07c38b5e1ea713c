import CommandLine.Proofs.Deferral

/-! What a run makes of one of its arguments.

However often an argument is read, only the last time counts: either it was read
and decided, or it put off its decision, and then it was resolved or is forgotten.
What came before was discarded with the context it was stored in. A law about one
argument is proved by induction on how the run came to its context from there.
-/

set_option autoImplicit false

namespace CommandLine

inductive Step.Touches (step : Step) (context : Context) : Context → Prop where
  | read (cursor : Cursor) : step.Touches context (step.read context cursor).context
  | answer (cursor : Cursor) (signal : Signal) (skipping : Exploration) :
    step.Touches context (step.answer context cursor signal skipping).context

inductive Step.Calls (step : Step) (index : Nat) : Visit → Prop where
  | read (context : Context) (cursor : Cursor) : step.Calls index (step.visit index context cursor)
  | resolved (context : Context) (cursor : Cursor) (signal : Signal) (skipping : Exploration) :
    step.Calls index (step.answered context cursor signal skipping index)

/-- The last visits of the argument at place `i` of the list, from its last reading on, and the
context that the run came to from there. -/
inductive Concludes : Nat → Nat → List Step → Context → List Visit → Context → Prop where
  | read {index : Nat} {step : Step} {rest : List Step} {context : Context} {cursor : Cursor}
      {value : Option Value} {onward : Exploration}
      (came : (step.read context cursor).outcome = .ok value)
      (others : Explores (index + 1) rest (step.read context cursor).context
        (step.read context cursor).cursor onward) :
    Concludes index 0 (step :: rest) context [step.visit index context cursor] onward.context
  | forgotten {index : Nat} {step : Step} {rest : List Step} {context final : Context}
      {cursor : Cursor} {signal : Signal}
      (sent : (step.read context cursor).outcome = .error (.deferred signal)) :
    Concludes index 0 (step :: rest) context [step.visit index context cursor] final
  | took {index : Nat} {step : Step} {rest : List Step} {context : Context} {cursor : Cursor}
      {signal : Signal} {skipping onward : Exploration} {value : Option Value}
      (sent : (step.read context cursor).outcome = .error (.deferred signal))
      (came : step.verdict context cursor signal skipping = .ok value)
      (again : Explores (index + 1) rest (step.answer context cursor signal skipping).context
        (step.answer context cursor signal skipping).cursor onward) :
    Concludes index 0 (step :: rest) context
      [step.visit index context cursor, step.answered context cursor signal skipping index]
      onward.context
  | stayed {index : Nat} {step : Step} {rest : List Step} {context : Context} {cursor : Cursor}
      {signal : Signal} {skipping : Exploration} {value : Option Value}
      (sent : (step.read context cursor).outcome = .error (.deferred signal))
      (came : step.verdict context cursor signal skipping = .ok value) :
    Concludes index 0 (step :: rest) context
      [step.visit index context cursor, step.answered context cursor signal skipping index]
      ((step.answer context cursor signal skipping).context.merge skipping.context)
  | behind {index i : Nat} {first : Step} {rest : List Step} {context after final : Context}
      {own : List Visit} (touched : first.Touches context after)
      (later : Concludes (index + 1) i rest after own final) :
    Concludes index (i + 1) (first :: rest) context own final
  | merged {index i : Nat} {first : Step} {rest : List Step}
      {context after answer final : Context} {own : List Visit}
      (touched : first.Touches context after) (answered : first.Touches context answer)
      (later : Concludes (index + 1) i rest after own final) :
    Concludes index (i + 1) (first :: rest) context own (answer.merge final)

namespace Visit

def left : Visit → Context
  | .read _ _ _ _ reading => reading.context
  | .resolved _ _ _ _ _ _ resolution => resolution.context

def ofIndex (index : Nat) (visits : List Visit) : List Visit :=
  visits.filter (·.index = index)

section

variable {index : Nat}

theorem ofIndex_append (earlier later : List Visit) :
    ofIndex index (earlier ++ later) = ofIndex index earlier ++ ofIndex index later :=
  List.filter_append ..

theorem ofIndex_eq_nil {visits : List Visit} (apart : ∀ visit ∈ visits, visit.index ≠ index) :
    ofIndex index visits = [] := by
  rw [ofIndex, List.filter_eq_nil_iff]
  simpa using apart

end

end Visit

namespace Step

open Visit

variable {step : Step} {index j : Nat} {context : Context} {cursor : Cursor} {signal : Signal}
  {skipping : Exploration}

theorem ofIndex_visit {later : List Visit} (behind : ∀ visit ∈ later, visit.index ≠ index) :
    ofIndex index (step.visit index context cursor :: later) =
      [step.visit index context cursor] := by
  rw [ofIndex, List.filter_cons_of_pos (by simp), ← ofIndex, ofIndex_eq_nil behind]

theorem ofIndex_visit_of_ne (different : index ≠ j) (later : List Visit) :
    ofIndex j (step.visit index context cursor :: later) = ofIndex j later := by
  rw [ofIndex, List.filter_cons_of_neg (by simp [different]), ← ofIndex]

theorem ofIndex_visits (behind : ∀ visit ∈ skipping.visits, visit.index ≠ index) :
    ofIndex index (step.visits context cursor signal skipping index) =
      [step.visit index context cursor, step.answered context cursor signal skipping index] := by
  rw [visits, ← List.cons_append, ofIndex_append, ofIndex_visit behind]
  simp [ofIndex]

theorem ofIndex_visits_of_ne (different : index ≠ j) :
    ofIndex j (step.visits context cursor signal skipping index) = ofIndex j skipping.visits := by
  have own : ofIndex j [step.answered context cursor signal skipping index] = [] :=
    ofIndex_eq_nil (List.forall_mem_singleton.mpr different)
  rw [visits, ofIndex_visit_of_ne different, ofIndex_append, own, List.append_nil]

end Step

namespace Concludes

variable {index i : Nat} {steps : List Step} {context final : Context} {own : List Visit}
  (h : Concludes index i steps context own final)
include h

theorem exists_reads : ∃ visit ∈ own, visit.Reads (index + i) := by
  induction h with
  | read | forgotten | took | stayed => exact ⟨_, List.mem_cons_self, rfl⟩
  | behind _ _ ih | merged _ _ _ ih =>
    obtain ⟨visit, inside, reads⟩ := ih
    refine ⟨visit, inside, ?_⟩
    rwa [Nat.add_right_comm, Nat.add_assoc] at reads

theorem ne_nil : own ≠ [] := by
  obtain ⟨visit, inside, -⟩ := h.exists_reads
  exact List.ne_nil_of_mem inside

theorem calls {step : Step} (here : steps[i]? = some step) :
    ∀ visit ∈ own, step.Calls (index + i) visit := by
  induction h with
  | read | forgotten =>
    cases here
    exact List.forall_mem_singleton.mpr (.read ..)
  | took | stayed =>
    cases here
    exact List.forall_mem_cons.mpr ⟨.read .., List.forall_mem_singleton.mpr (.resolved ..)⟩
  | behind _ _ ih | merged _ _ _ ih =>
    intro visit inside
    have call := ih here visit inside
    rwa [Nat.add_right_comm, Nat.add_assoc] at call

end Concludes

open Deferral Visit

/-- The visits of the argument at place `i` end with those that count. If the last of them did not
succeed, the deferral of the argument is among those that are lost. -/
def Concluded (index i : Nat) (steps : List Step) (context : Context) (visits : List Visit)
    (final : Context) (lost : List Deferral) : Prop :=
  ∃ earlier own, ofIndex (index + i) visits = earlier ++ own ∧
    Concludes index i steps context own final ∧
    ((∃ last, own.getLast? = some last ∧ last.Succeeds) ∨
      ∃ deferral ∈ lost, deferral.index = index + i)

section

variable {index i : Nat} {first : Step} {rest : List Step} {context after final : Context}
  {visits all : List Visit} {lost more : List Deferral}

/-- The argument in front may have been visited in between, and others before that. -/
theorem Concluded.behind (h : Concluded (index + 1) i rest after visits final lost)
    (touched : first.Touches context after) (earlier : List Visit)
    (place : ofIndex (index + 1 + i) all = earlier ++ ofIndex (index + 1 + i) visits)
    (kept : lost ⊆ more) : Concluded index (i + 1) (first :: rest) context all final more := by
  obtain ⟨before, own, found, concludes, decided⟩ := h
  have shift : index + (i + 1) = index + 1 + i := by omega
  rw [Concluded, shift]
  refine ⟨earlier ++ before, own, ?_, .behind touched concludes, decided.imp_right ?_⟩
  · rw [place, found, List.append_assoc]
  · rintro ⟨deferral, inside, same⟩
    exact ⟨deferral, kept inside, same⟩

/-- Nothing of those behind an argument is lost when it is resolved. -/
theorem Concluded.merged {answer : Context}
    (h : Concluded (index + 1) i rest after visits final [])
    (touched : first.Touches context after) (answered : first.Touches context answer)
    (place : ofIndex (index + 1 + i) all = ofIndex (index + 1 + i) visits) :
    Concluded index (i + 1) (first :: rest) context all (answer.merge final) lost := by
  obtain ⟨before, own, found, concludes, decided⟩ := h
  have shift : index + (i + 1) = index + 1 + i := by omega
  rw [Concluded, shift]
  exact ⟨before, own, place.trans found, .merged touched answered concludes,
    .inl (decided.resolve_right (by simp))⟩

end

/-- Unless a run fails, it comes to a conclusion about every argument. -/
theorem Explores.concluded {index : Nat} {steps : List Step} {context : Context} {cursor : Cursor}
    {exploration : Exploration} (h : Explores index steps context cursor exploration)
    (unfailed : exploration.ending.isFailed = false) {i : Nat} (here : i < steps.length) :
    Concluded index i steps context exploration.visits exploration.context
      (waiting exploration.visits) := by
  induction h generalizing i with
  | reached => exact absurd here (Nat.not_lt_zero i)
  | failed | unresolved => cases unfailed
  | @read index step rest context cursor _ onward came others ih =>
    rw [waiting_read came]
    cases i with
    | zero =>
      exact ⟨[], _, Step.ofIndex_visit others.index_ne, (Concludes.read came others :),
        .inl ⟨_, rfl, Step.succeeds_visit came⟩⟩
    | succ i =>
      exact (ih unfailed (Nat.lt_of_succ_lt_succ here)).behind (.read cursor) []
        (Step.ofIndex_visit_of_ne (by omega) _) (List.Subset.refl _)
  | @dropped index step rest context cursor _ _ sent others _ ih =>
    rw [waiting_dropped sent others]
    cases i with
    | zero =>
      exact ⟨[], _, Step.ofIndex_visit others.index_ne, .forgotten sent,
        .inr ⟨_, List.mem_append_right _ List.mem_cons_self, rfl⟩⟩
    | succ i =>
      exact (ih unfailed (Nat.lt_of_succ_lt_succ here)).behind (.read cursor) []
        (Step.ofIndex_visit_of_ne (by omega) _) (List.subset_append_left ..)
  | finished passed others came =>
    cases i with
    | zero =>
      exact ⟨[], _, Step.ofIndex_visits others.index_ne, (Concludes.took passed.sent came
        (.reached ..) :), .inl ⟨_, rfl, Step.succeeds_answered came⟩⟩
    | succ i => exact absurd (Nat.lt_of_succ_lt_succ here) (Nat.not_lt_zero i)
  | @restarted index step _ _ context cursor signal skipping _ _ passed others came _ again _
      ofOnward =>
    rw [others.waiting_restarted passed]
    cases i with
    | zero =>
      refine ⟨[], _, ?_, (Concludes.took passed.sent came again :),
        .inl ⟨_, rfl, Step.succeeds_answered came⟩⟩
      rw [Exploration.after, ofIndex_append, Nat.add_zero, Step.ofIndex_visits others.index_ne,
        ofIndex_eq_nil again.index_ne, List.append_nil, List.nil_append]
    | succ i =>
      -- What those behind the argument did before it was resolved does not count.
      exact (ofOnward unfailed (Nat.lt_of_succ_lt_succ here)).behind
        (.answer cursor signal skipping) _ (ofIndex_append ..) (List.Subset.refl _)
  | @resolved index step _ context cursor signal skipping _ passed others came _ ih =>
    cases i with
    | zero =>
      exact ⟨[], _, Step.ofIndex_visits others.index_ne, .stayed passed.sent came,
        .inl ⟨_, rfl, Step.succeeds_answered came⟩⟩
    | succ i =>
      have behind := ih unfailed (Nat.lt_of_succ_lt_succ here)
      rw [others.waiting_eq_nil passed.unfinished] at behind
      exact behind.merged (.read cursor) (.answer cursor signal skipping)
        (Step.ofIndex_visits_of_ne (by omega))

end CommandLine
