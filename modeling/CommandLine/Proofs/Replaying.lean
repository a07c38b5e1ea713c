import CommandLine.Proofs.CaseFold
import CommandLine.Proofs.Coverage
import CommandLine.Proofs.Suggesting

/-! Completion as a replay of the run.

Completion reads the arguments as the run does at first: one that puts off its
decision is passed over, and nothing is resolved. So it comes to the argument
that takes the last token, unless the run first had to start over behind a
resolution that took tokens.
-/

set_option autoImplicit false

namespace CommandLine

namespace Visit

/-- No argument is read before a resolution has taken tokens. -/
def ReadsLater : List Visit → Prop
  | [] => True
  | visit :: later =>
    (∃ index, visit.Takes index) ∨ (∀ index, ¬visit.Reads index) ∧ ReadsLater later

theorem readsLater_append {earlier later : List Visit} (before : ReadsLater earlier)
    (after : ReadsLater later) : ReadsLater (earlier ++ later) := by
  induction earlier with
  | nil => exact after
  | cons visit rest ih =>
    rcases before with takes | ⟨unread, behind⟩
    · exact .inl takes
    · exact .inr ⟨unread, ih behind⟩

theorem not_readsLater_of_untaken {visits earlier later : List Visit} {visit : Visit} {index : Nat}
    (split : visits = earlier ++ visit :: later) (reads : visit.Reads index)
    (untaken : ∀ visit ∈ earlier, ∀ index, ¬visit.Takes index) : ¬ReadsLater visits := by
  subst split
  induction earlier with
  | nil =>
    rintro (⟨other, takes⟩ | ⟨unread, -⟩)
    · cases visit with
      | read => exact takes
      | resolved => exact reads
    · exact unread index reads
  | cons first rest ih =>
    obtain ⟨own, others⟩ := List.forall_mem_cons.mp untaken
    rintro (⟨other, takes⟩ | ⟨-, behind⟩)
    · exact own other takes
    · exact ih others behind

theorem mem_of_untaken {first visits earlier later : List Visit} {visit : Visit} {index : Nat}
    (split : first ++ visits = earlier ++ visit :: later) (after : ReadsLater visits)
    (reads : visit.Reads index) (untaken : ∀ visit ∈ earlier, ∀ index, ¬visit.Takes index) :
    visit ∈ first := by
  rcases List.append_eq_append_iff.mp split with ⟨between, rfl, same⟩ | ⟨between, rfl, same⟩
  · have apart := not_readsLater_of_untaken same reads fun other inside =>
      untaken other (List.mem_append_right _ inside)
    exact absurd after apart
  · cases between with
    | nil =>
      have apart : ¬ReadsLater visits :=
        not_readsLater_of_untaken (same.symm.trans (List.nil_append _).symm) reads nofun
      exact absurd after apart
    | cons head tail =>
      cases same
      exact List.mem_append_right _ List.mem_cons_self

end Visit

/-- What is read before anything is resolved: arguments that put off their decision are passed
over. -/
def firstPass : Nat → List Step → Context → Cursor → List Visit
  | _, [], _, _ => []
  | index, step :: rest, context, cursor =>
    let reading := step.read context cursor
    step.visit index context cursor ::
      match reading.outcome with
      | .ok _ => firstPass (index + 1) rest reading.context reading.cursor
      | .error (.deferred _) => firstPass (index + 1) rest reading.context cursor
      | .error (.error _) => []

section

variable {index : Nat} {step : Step} {rest : List Step} {context : Context} {cursor : Cursor}

theorem firstPass_of_read {value : Option Value}
    (came : (step.read context cursor).outcome = .ok value) :
    firstPass index (step :: rest) context cursor =
      step.visit index context cursor ::
        firstPass (index + 1) rest (step.read context cursor).context
          (step.read context cursor).cursor := by
  simp only [firstPass, came]

theorem firstPass_of_sent {signal : Signal}
    (sent : (step.read context cursor).outcome = .error (.deferred signal)) :
    firstPass index (step :: rest) context cursor =
      step.visit index context cursor ::
        firstPass (index + 1) rest (step.read context cursor).context cursor := by
  simp only [firstPass, sent]

theorem firstPass_of_failed {cause : ArgumentError}
    (failed : (step.read context cursor).outcome = .error (.error cause)) :
    firstPass index (step :: rest) context cursor = [step.visit index context cursor] := by
  simp only [firstPass, failed]

/-- The first pass over an argument that is resolved later is followed by that. -/
theorem Step.visits_eq_firstPass {signal : Signal} {skipping : Exploration} {later : List Visit}
    (sent : (step.read context cursor).outcome = .error (.deferred signal))
    (others : skipping.visits =
      firstPass (index + 1) rest (step.read context cursor).context cursor ++ later) :
    step.visits context cursor signal skipping index =
      firstPass index (step :: rest) context cursor ++
        (later ++ [step.answered context cursor signal skipping index]) := by
  rw [firstPass_of_sent sent, visits, others, List.cons_append, List.append_assoc]

theorem Step.readsLater_answered {signal : Signal} {skipping : Exploration} :
    Visit.ReadsLater [step.answered context cursor signal skipping index] :=
  .inr ⟨fun _ reads => reads, trivial⟩

theorem Step.reaches_of_mem_firstPass {steps : List Step} (advance : ∀ step ∈ steps, step.Advances)
    {at_ : Nat} {name : String} {seen : Context} {stood : Cursor} {reading : Reading}
    (inside : .read at_ name seen stood reading ∈ firstPass index steps context cursor) :
    cursor.Reaches stood := by
  induction steps generalizing index context cursor with
  | nil => cases inside
  | cons step rest ih =>
    obtain ⟨head, others⟩ := List.forall_mem_cons.mp advance
    rcases List.mem_cons.mp inside with same | behind
    · cases same
      exact .refl _
    · split at behind
      next => exact (head.read context cursor).trans (ih others behind)
      next => exact ih others behind
      next => cases behind

end

/-- A run begins with the first pass, and reads again only after a resolution took tokens. -/
theorem Explores.visits_eq_firstPass {index : Nat} {steps : List Step} {context : Context}
    {cursor : Cursor} {exploration : Exploration}
    (h : Explores index steps context cursor exploration) :
    ∃ later, exploration.visits = firstPass index steps context cursor ++ later ∧
      Visit.ReadsLater later := by
  induction h with
  | reached => exact ⟨[], rfl, trivial⟩
  | failed came => exact ⟨[], by rw [firstPass_of_failed came]; rfl, trivial⟩
  | read came _ ih =>
    obtain ⟨later, visits, reads⟩ := ih
    refine ⟨later, ?_, reads⟩
    rw [firstPass_of_read came, Exploration.after, visits]
    rfl
  | dropped sent _ _ ih =>
    obtain ⟨later, visits, reads⟩ := ih
    refine ⟨later, ?_, reads⟩
    rw [firstPass_of_sent sent, Exploration.after, visits]
    rfl
  | unresolved passed _ _ ih | finished passed _ _ _ ih | resolved passed _ _ _ ih =>
    obtain ⟨later, visits, reads⟩ := ih
    exact ⟨_, Step.visits_eq_firstPass passed.sent visits,
      Visit.readsLater_append reads Step.readsLater_answered⟩
  | @restarted index step _ _ context cursor signal skipping onward _ passed _ _ takes _
      ofSkipping =>
    obtain ⟨later, visits, reads⟩ := ofSkipping
    -- What the run reads from here on comes behind the resolution that took tokens.
    refine ⟨later ++ step.answered context cursor signal skipping index :: onward.visits, ?_,
      Visit.readsLater_append reads (.inl ⟨index, rfl, takes⟩)⟩
    rw [Exploration.after, Step.visits_eq_firstPass passed.sent visits]
    simp

namespace Completion

theorem extend_eq_append {limit : Nat} {found more : List String}
    (below : (extend limit found more).length < limit) :
    extend limit found more = found ++ more := by
  simp only [extend, List.length_append, List.length_take] at below
  rw [extend, List.take_of_length_le]
  omega

end Completion

theorem Cursor.finalToken_of_next? {cursor rest : Cursor} {token : String}
    (next : cursor.next? = some (token, rest)) (done : rest.hasNext = false) :
    cursor.finalToken = some token := by
  have none : rest.remaining = [] := by
    cases left : rest.remaining with
    | nil => rfl
    | cons => exact absurd (done.symm.trans (rest.hasNext_iff.mpr (by simp [left]))) nofun
  have only : cursor.remaining = [token] := by
    rw [remaining_of_next? next, none]
  rw [finalToken, ← length_remaining, peek_eq_head?_remaining, only]
  rfl

theorem Reading.next?_of_literal {word : String} {context : Context} {cursor : Cursor}
    {value : Option Value} (came : (literal word context cursor).outcome = .ok value) :
    ∃ typed, cursor.next? = some (typed, (literal word context cursor).cursor) ∧
      Text.sameIgnoringCase typed word = true := by
  unfold literal token at came ⊢
  split at came
  next => cases came
  next typed rest next =>
    dsimp only at came ⊢
    cases same : Text.sameIgnoringCase typed word with
    | true =>
      refine ⟨typed, ?_, same⟩
      simp [next]
      rfl
    | false =>
      simp [same] at came
      cases came

namespace Argument

variable {σ : Type} {input : Input σ}

theorem suggestions_complete_literal {name word : String} {context : Context} {cursor : Cursor}
    {value : Option Value}
    (came : (read input .storing (literal name word) context cursor).outcome = .ok value)
    (last : (read input .storing (literal name word) context cursor).cursor.hasNext = false)
    (seen : Context) :
    ((literal name word).complete input seen cursor).suggestions = [word] := by
  obtain ⟨typed, next, same⟩ := Reading.next?_of_literal came
  have final := Cursor.finalToken_of_next? next last
  simp [complete, Completion.words, final, Text.startsIgnoringCase_of_same same]

/-- The argument that takes the last token in the first pass is the last that completion asks. -/
theorem suggestions_of_mem_firstPass {arguments : List (Argument σ)} {index at_ : Nat}
    {name : String} {context seen : Context} {cursor stood : Cursor} {reading : Reading}
    {value : Option Value}
    (inside : .read at_ name seen stood reading ∈
      firstPass index (arguments.map (·.step input)) context cursor)
    (came : reading.outcome = .ok value) (here : stood.hasNext = true)
    (last : reading.cursor.hasNext = false) (found : List String) :
    ∃ offset argument before, at_ = index + offset ∧ arguments[offset]? = some argument ∧
      reading = argument.read input .storing seen stood ∧
      (suggestFrom input arguments context cursor found).suggestions =
        Completion.extend input.maxSuggestions before
          (argument.complete input reading.context stood).suggestions := by
  induction arguments generalizing index context cursor found with
  | nil => cases inside
  | cons argument rest ih =>
    rcases List.mem_cons.mp inside with same | behind
    · cases same
      exact ⟨0, argument, found, rfl, rfl, rfl,
        suggestions_suggestFrom_of_stops here rfl (stops?_of_done came last)⟩
    · have advance := advances_steps input (argument :: rest)
      have token := (Step.reaches_of_mem_firstPass advance inside).hasNext here
      dsimp only [step] at behind
      split at behind
      next own =>
        have left := (Step.reaches_of_mem_firstPass (advances_steps input rest) behind).hasNext here
        obtain ⟨more, leads, -⟩ := suggestions_of_left rfl own left found
        obtain ⟨offset, other, before, rfl, member, made, suggestions⟩ := ih behind more
        exact ⟨offset + 1, other, before, by omega, member, made, (leads rest).trans suggestions⟩
      next signal own =>
        have asked : argument.stops? cursor (argument.read input .storing context cursor) =
            some false := by
          simp [stops?, own]
        obtain ⟨offset, other, before, rfl, member, made, suggestions⟩ := ih behind _
        exact ⟨offset + 1, other, before, by omega, member, made,
          (suggestions_suggestFrom_of_asked token rfl asked).trans suggestions⟩
      next => cases behind

end Argument

namespace Command

variable {σ : Type}

/-- Completion offers a keyword that takes the last token, if no resolution has taken tokens before
it is read. -/
theorem complete_offers_keyword (command : Command σ) (input : Input σ) (cursor : Cursor)
    {index : Nat} {name word : String}
    (keyword : command.arguments[index]? = some (.literal name word))
    {earlier later : List Visit} {called : String} {context : Context} {stood : Cursor}
    {reading : Reading} {value : Option Value}
    (visited : (command.parse input cursor).visits =
      earlier ++ .read index called context stood reading :: later)
    (untaken : ∀ visit ∈ earlier, ∀ other, ¬visit.Takes other)
    (came : reading.outcome = .ok value) (here : stood.hasNext = true)
    (last : reading.cursor.hasNext = false)
    (below : (command.complete input cursor).suggestions.length < input.maxSuggestions) :
    word ∈ (command.complete input cursor).suggestions := by
  obtain ⟨more, split, after⟩ :=
    (explores_explore 0 (command.arguments.map (·.step input)) .empty cursor).visits_eq_firstPass
  have inside := Visit.mem_of_untaken (split.symm.trans visited) after rfl untaken
  obtain ⟨offset, argument, before, same, member, made, suggestions⟩ :=
    Argument.suggestions_of_mem_firstPass inside came here last []
  rw [Nat.zero_add] at same
  rw [same, member] at keyword
  cases keyword
  subst made
  rw [Argument.suggestions_complete_literal came last] at suggestions
  have complete : (command.complete input cursor).suggestions =
      Completion.extend input.maxSuggestions before [word] := suggestions
  rw [complete] at below ⊢
  rw [Completion.extend_eq_append below]
  exact List.mem_append_right _ (List.mem_singleton_self word)

def summon : Command Unit where
  arguments :=
    [.fallback (.literal "target" "all") (.text ⟨"player", none⟩ false),
      .orDefault (.integer ⟨"times", none⟩ ⟨true, 32, false⟩) (.integer ⟨true, 32, false⟩ 1),
      .literal "go" "go"]
  distinct := by decide

/-- A player is taken by a resolution only, so completion comes to the keyword too early. -/
theorem summon_overlooks_its_keyword :
    let run := summon.parse ⟨(), 20⟩ (.ofList ["steve", "go"])
    let completion := summon.complete ⟨(), 20⟩ (.ofList ["steve", "go"])
    summon.arguments[2]? = some (.literal "go" "go") ∧ run.result.isOk = true ∧
      ∃ earlier context stood reading later,
        run.visits = earlier ++ .read 2 "go" context stood reading :: later ∧
        (∀ visit ∈ later, ∀ other, ¬visit.Takes other) ∧
        reading.outcome = .ok (some (.text "go")) ∧ stood.remaining = ["go"] ∧
        reading.cursor.hasNext = false ∧ completion.suggestions = [] := by
  intro run completion
  refine ⟨rfl, rfl, run.visits.take 6, _, _, _, run.visits.drop 7, rfl, ?_, rfl, rfl, rfl, rfl⟩
  refine List.forall_mem_singleton.mpr fun other takes => ?_
  cases takes.2

/-- The number is passed over here, and takes no token later. -/
theorem complete_summon_offers_keyword :
    let run := summon.parse ⟨(), 20⟩ (.ofList ["all", "go"])
    run.result.isOk = true ∧
      "go" ∈ (summon.complete ⟨(), 20⟩ (.ofList ["all", "go"])).suggestions := by
  intro run
  have visited : run.visits = run.visits.take 2 ++ .read 2 "go" _ _ _ :: run.visits.drop 3 := rfl
  have untaken : ∀ visit ∈ run.visits.take 2, ∀ other, ¬visit.Takes other :=
    List.forall_mem_cons.mpr ⟨fun _ => id, List.forall_mem_singleton.mpr fun _ => id⟩
  constructor
  · rfl
  · exact complete_offers_keyword summon _ _ rfl visited untaken rfl rfl rfl (by decide +kernel)

end Command

end CommandLine
