import CommandLine.Proofs.Accounting
import CommandLine.Proofs.Advancing

/-! Which tokens belong to which argument.

In a run that succeeds, the tokens fall into one stretch for each argument, in
the order of the arguments. The last reading of an argument stands where its
stretch begins, and the reading or a resolution of what it put off takes the run
to where the stretch ends. An argument that does neither has an empty stretch.
-/

set_option autoImplicit false

namespace CommandLine

namespace Visit

def Takes (index : Nat) : Visit → Prop
  | .read .. => False
  | .resolved other _ _ _ start _ resolution => other = index ∧ consumes start resolution = true

theorem index_of_takes {visit : Visit} {index : Nat} (h : visit.Takes index) :
    visit.index = index := by
  cases visit with
  | read => exact h.elim
  | resolved => exact h.1

end Visit

/-- How the last reading of an argument, which stood at `start`, takes the run to `finish`, if the
visits after it are `later`. -/
inductive Covers (index start finish : Nat) (reading : Reading) (later : List Visit) : Prop where
  | decided {value : Option Value} (came : reading.outcome = .ok value)
      (stands : reading.cursor.position = finish)
  | passedOver {signal : Signal} (sent : reading.outcome = .error (.deferred signal))
      (untaken : ∀ visit ∈ later, ¬visit.Takes index) (stays : finish = start)
  | resolved {signal : Signal} {name : String} {context : Context} {cursor : Cursor}
      {resolution : Resolution} {value : Option Value}
      (sent : reading.outcome = .error (.deferred signal))
      (inside : .resolved index name true context cursor signal resolution ∈ later)
      (stood : cursor.position = start) (came : resolution.outcome = .ok value)
      (stands : resolution.cursor.position = finish) (ahead : start < finish)

/-- The last time the argument was read, it stood on these tokens at `start`, and that took the run
to `finish`. -/
def Spans (tokens : List String) (visits : List Visit) (index start finish : Nat) : Prop :=
  ∃ earlier name context cursor reading later,
    visits = earlier ++ .read index name context cursor reading :: later ∧
      (∀ visit ∈ later, ¬visit.Reads index) ∧
      cursor.tokens = tokens ∧ cursor.position = start ∧ Covers index start finish reading later

namespace Spans

variable {tokens : List String} {visits : List Visit} {index start finish : Nat}

theorem prepend (h : Spans tokens visits index start finish) (more : List Visit) :
    Spans tokens (more ++ visits) index start finish := by
  obtain ⟨earlier, name, context, cursor, reading, later, rfl, rest⟩ := h
  exact ⟨more ++ earlier, name, context, cursor, reading, later, by simp, rest⟩

theorem append (h : Spans tokens visits index start finish) {more : List Visit}
    (apart : ∀ visit ∈ more, visit.index ≠ index) :
    Spans tokens (visits ++ more) index start finish := by
  obtain ⟨earlier, name, context, cursor, reading, later, rfl, last, same, stood, covers⟩ := h
  refine ⟨earlier, name, context, cursor, reading, later ++ more, by simp, ?_, same, stood, ?_⟩
  · intro visit inside reads
    rcases List.mem_append.mp inside with before | after
    · exact last visit before reads
    · exact apart visit after (Visit.index_of_reads reads)
  · cases covers with
    | decided came stands => exact .decided came stands
    | passedOver sent untaken stays =>
      refine .passedOver sent (fun visit inside takes => ?_) stays
      rcases List.mem_append.mp inside with before | after
      · exact untaken visit before takes
      · exact apart visit after (Visit.index_of_takes takes)
    | resolved sent inside stood came stands ahead =>
      exact .resolved sent (List.mem_append_left _ inside) stood came stands ahead

end Spans

/-- The tokens from `start` to `finish` fall into stretches for `count` arguments from `index`
on. -/
def Divides (tokens : List String) (visits : List Visit) (index count start finish : Nat) : Prop :=
  ∃ positions : Nat → Nat, positions 0 = start ∧ positions count = finish ∧
    ∀ i < count, positions i ≤ positions (i + 1) ∧
      Spans tokens visits (index + i) (positions i) (positions (i + 1))

namespace Divides

variable {tokens : List String} {visits : List Visit} {index count start middle finish : Nat}

theorem nil (position : Nat) : Divides tokens visits index 0 position position :=
  ⟨fun _ => position, rfl, rfl, nofun⟩

theorem cons (own : Spans tokens visits index start middle) (ahead : start ≤ middle)
    (others : Divides tokens visits (index + 1) count middle finish) :
    Divides tokens visits index (count + 1) start finish := by
  obtain ⟨positions, rfl, rfl, each⟩ := others
  refine ⟨fun | 0 => start | i + 1 => positions i, rfl, rfl, fun i bound => ?_⟩
  cases i with
  | zero => exact ⟨ahead, own⟩
  | succ i =>
    obtain ⟨forward, spans⟩ := each i (Nat.lt_of_succ_lt_succ bound)
    rw [Nat.add_right_comm] at spans
    exact ⟨forward, spans⟩

theorem mono {visits' : List Visit} (h : Divides tokens visits index count start finish)
    (grows : ∀ i start finish, index ≤ i → Spans tokens visits i start finish →
      Spans tokens visits' i start finish) :
    Divides tokens visits' index count start finish := by
  obtain ⟨positions, first, last, each⟩ := h
  refine ⟨positions, first, last, fun i bound => ⟨(each i bound).1, ?_⟩⟩
  exact grows _ _ _ (Nat.le_add_right ..) (each i bound).2

end Divides

namespace Step

variable {step : Step} {index finish : Nat} {context : Context} {cursor : Cursor} {signal : Signal}
  {skipping : Exploration} {later : List Visit}

theorem spans_visit (last : ∀ visit ∈ later, ¬visit.Reads index)
    (covers : Covers index cursor.position finish (step.read context cursor) later) :
    Spans cursor.tokens (step.visit index context cursor :: later) index cursor.position finish :=
  ⟨[], step.name, context, cursor, step.read context cursor, later, rfl, last, rfl, rfl, covers⟩

theorem Advances.covers_answered (h : step.Advances)
    (passed : Passed step context cursor signal skipping) {value : Option Value}
    (came : step.verdict context cursor signal skipping = .ok value)
    (takes : step.consumes context cursor signal skipping = true)
    (inside : step.answered context cursor signal skipping index ∈ later) :
    Covers index cursor.position (step.answer context cursor signal skipping).cursor.position
      (step.read context cursor) later := by
  unfold answered at inside
  rw [h.wentWrong_of_consumes takes, h.start_of_consumes takes] at inside
  exact .resolved passed.sent inside rfl (outcome_of_verdict came) rfl (h.lt_answer takes)

end Step

namespace Explores

variable {index : Nat} {steps : List Step} {context : Context} {cursor : Cursor}
  {exploration : Exploration}

theorem not_takes (h : Explores (index + 1) steps context cursor exploration) :
    ∀ visit ∈ exploration.visits, ¬visit.Takes index :=
  fun visit inside takes => h.index_ne visit inside (Visit.index_of_takes takes)

theorem not_takes_answered {step : Step} {rest : List Step} {signal : Signal}
    {skipping : Exploration}
    (others : Explores (index + 1) rest (step.read context cursor).context cursor skipping)
    (stays : step.consumes context cursor signal skipping = false) :
    ∀ visit ∈ skipping.visits ++ [step.answered context cursor signal skipping index],
      ¬visit.Takes index := by
  refine List.forall_mem_append.mpr ⟨others.not_takes, List.forall_mem_singleton.mpr ?_⟩
  exact fun takes => absurd (stays.symm.trans takes.2) Bool.noConfusion

/-- Unless reading a list of arguments fails, they divide the tokens up to where it ends. -/
theorem divides (h : Explores index steps context cursor exploration)
    (advance : ∀ step ∈ steps, step.Advances) (unfailed : exploration.ending.isFailed = false) :
    Divides cursor.tokens exploration.visits index steps.length cursor.position
      exploration.cursor.position := by
  induction h with
  | reached => exact .nil _
  | failed => cases unfailed
  | unresolved => cases unfailed
  | @read _ step _ context cursor _ _ came others ih =>
    obtain ⟨head, behind⟩ := List.forall_mem_cons.mp advance
    have forward := head.read context cursor
    have divides := ih behind unfailed
    rw [forward.tokens] at divides
    refine .cons (Step.spans_visit others.not_reads (.decided came rfl)) forward.forward ?_
    exact divides.mono fun _ _ _ _ spans => spans.prepend [_]
  | dropped sent others _ ih =>
    have divides := ih (List.forall_mem_cons.mp advance).2 unfailed
    refine .cons (Step.spans_visit others.not_reads (.passedOver sent others.not_takes rfl))
      (Nat.le_refl _) ?_
    exact divides.mono fun _ _ _ _ spans => spans.prepend [_]
  | finished passed others came takes =>
    have head := advance _ List.mem_cons_self
    -- The last argument is the only one here, and its stretch is what the resolution takes.
    refine .cons (Step.spans_visit others.not_reads_answered ?_)
      (Nat.le_of_lt (head.lt_answer takes)) (.nil _)
    exact head.covers_answered passed came takes (List.mem_append_right _ List.mem_cons_self)
  | @restarted index step next rest context cursor signal skipping onward value passed others came
      takes again _ ofOnward =>
    obtain ⟨head, behind⟩ := List.forall_mem_cons.mp advance
    have forward : cursor.Reaches (step.answer context cursor signal skipping).cursor :=
      head.answer (others.reaches behind)
    have divides := ofOnward behind unfailed
    rw [forward.tokens] at divides
    -- The others were read once more since, and their last reading is in what came then.
    have last : ∀ visit ∈ (skipping.visits ++
        [step.answered context cursor signal skipping index]) ++ onward.visits,
        ¬visit.Reads index :=
      List.forall_mem_append.mpr ⟨others.not_reads_answered, again.not_reads⟩
    refine .cons (Step.spans_visit last ?_) forward.forward ?_
    · exact head.covers_answered passed came takes (by simp)
    · exact divides.mono fun _ _ _ _ spans => spans.prepend _
  | resolved passed others came stays ih =>
    have divides := ih (List.forall_mem_cons.mp advance).2 unfailed
    refine .cons (Step.spans_visit others.not_reads_answered
      (.passedOver passed.sent (others.not_takes_answered stays) rfl)) (Nat.le_refl _) ?_
    -- The resolution is the only visit after those of the others, and not one of theirs.
    refine divides.mono fun i _ _ behind spans => (spans.append ?_).prepend [_]
    exact List.forall_mem_singleton.mpr (Nat.ne_of_lt behind)

end Explores

namespace Command

variable {σ : Type}

theorem hasNext_of_result {command : Command σ} {input : Input σ} {cursor : Cursor}
    {context : Context} (parsed : (command.parse input cursor).result = .ok context) :
    (command.parse input cursor).cursor.hasNext = false := by
  unfold parse at parsed ⊢
  dsimp only at parsed ⊢
  split at parsed
  next => cases parsed
  next =>
    split at parsed
    next => cases parsed
    next complete =>
      unfold leftover? at complete
      split at complete
      next done => simpa [Cursor.peek, Cursor.hasNext] using done
      next => split at complete <;> cases complete

/-- Once a command has been read, every token belongs to the stretch of one argument: the
stretches follow one another from where the cursor stood to the end of the tokens, each from where
the last reading of its argument stood to where that reading, or the resolution of what it put
off, took the run. -/
theorem parse_divides_tokens (command : Command σ) (input : Input σ) (cursor : Cursor)
    (context : Context) (parsed : (command.parse input cursor).result = .ok context) :
    ∃ positions : Nat → Nat, positions 0 = cursor.position ∧
      positions command.arguments.length = cursor.tokens.length ∧
      ∀ index < command.arguments.length, positions index ≤ positions (index + 1) ∧
        Spans cursor.tokens (command.parse input cursor).visits index (positions index)
          (positions (index + 1)) := by
  have explores := explores_explore 0 (command.arguments.map (·.step input)) .empty cursor
  have advance := Argument.advances_steps input command.arguments
  obtain ⟨unfailed, -⟩ := unfailed_of_result parsed
  obtain ⟨positions, first, last, each⟩ := explores.divides advance unfailed
  rw [List.length_map] at last each
  refine ⟨positions, first, ?_, fun index bound => ?_⟩
  · -- The run ends behind the last token.
    have finish := (explores.reaches advance).eq_toEnd (hasNext_of_result parsed)
    rw [last, finish]
    rfl
  · obtain ⟨forward, spans⟩ := each index bound
    rw [Nat.zero_add] at spans
    exact ⟨forward, spans⟩

def serve : Command Unit where
  arguments :=
    [.fallback (.literal "target" "all") (.text ⟨"player", none⟩ false),
      .orDefault (.integer ⟨"count", none⟩ ⟨true, 32, false⟩) (.integer ⟨true, 32, false⟩ 1),
      .text ⟨"item", none⟩ false]
  distinct := by decide

/-- Here the player is taken by a resolution, with which reading starts over, and the count takes
no token. -/
theorem parse_serve_divides_tokens :
    ∃ context, (serve.parse ⟨(), 20⟩ (.ofList ["steve", "apple"])).result = .ok context ∧
      context.entries = [("target", .text "steve"), ("count", .integer ⟨true, 32, false⟩ 1),
        ("item", .text "apple")] ∧
      ∃ positions : Nat → Nat, positions 0 = 0 ∧ positions 3 = 2 ∧
        ∀ index < 3, positions index ≤ positions (index + 1) ∧
          Spans ["steve", "apple"] (serve.parse ⟨(), 20⟩ (.ofList ["steve", "apple"])).visits index
            (positions index) (positions (index + 1)) :=
  ⟨_, rfl, rfl, parse_divides_tokens serve ⟨(), 20⟩ (.ofList ["steve", "apple"]) _ rfl⟩

end Command

end CommandLine
