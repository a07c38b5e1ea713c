import CommandLine.Argument.Read
import CommandLine.Proofs.Tree

/-! Arguments that decide at once.

What is known of an argument before any token is read tells whether it can put
off its decision: one that is not marked so never does.
-/

set_option autoImplicit false

namespace CommandLine

namespace Reading

def Decided (reading : Reading) : Prop :=
  ∀ signal, reading.outcome ≠ .error (.deferred signal)

theorem Decided.of_ok {reading : Reading} {value : Option Value}
    (came : reading.outcome = .ok value) : reading.Decided := by
  intro signal sent
  rw [came] at sent
  cases sent

namespace Decided

variable {reading : Reading}

theorem kept (h : reading.Decided) (mode : Mode) (name : String) :
    (reading.kept mode name).Decided := by
  intro signal
  rw [outcome_kept]
  exact h signal

theorem wrapped (h : reading.Decided) (name : String) : (reading.wrapped name).Decided := by
  unfold Reading.wrapped
  split
  next signal came => exact absurd came (h signal)
  next => exact h

theorem orAbsent (h : reading.Decided) (name : String) (start : Cursor) :
    (reading.orAbsent name start).Decided := by
  unfold Reading.orAbsent
  split
  next => exact h
  next signal came => exact absurd came (h signal)
  next => exact nofun

theorem mapped (h : reading.Decided) (name : String)
    (mapping : Value → Except ArgumentError Value) : (reading.mapped name mapping).Decided := by
  unfold Reading.mapped
  split
  next => exact h
  next => split <;> exact nofun
  next => exact h
  next signal came => exact absurd came (h signal)

end Decided

section

variable {context : Context} {cursor : Cursor}

theorem decided_token {display : String} {accept : String → Except Failure Value}
    (accepts : ∀ word signal, accept word ≠ .error (.deferred signal)) :
    Decided (token display accept context cursor) := by
  unfold token
  split
  next => exact nofun
  next word rest _ =>
    split
    next failure refused =>
      intro signal sent
      cases sent
      exact accepts word signal refused
    next => exact nofun

theorem decided_literal (word : String) : Decided (literal word context cursor) := by
  refine decided_token fun typed signal => ?_
  split <;> exact nofun

theorem decided_integer (display : String) (kind : IntegerKind) :
    Decided (integer display kind context cursor) := by
  refine decided_token fun typed signal => ?_
  split <;> exact nofun

theorem decided_boolean (display : String) : Decided (boolean display context cursor) := by
  refine decided_token fun typed signal => ?_
  split
  · exact nofun
  · split <;> exact nofun

theorem decided_text (display : String) (joinsRest : Bool) :
    Decided (text display joinsRest context cursor) := by
  unfold text
  split
  · dsimp only
    split <;> exact nofun
  · exact decided_token fun typed signal => nofun

theorem decided_produced (result : Except ArgumentError Value) :
    Decided (produced result context cursor) := by
  unfold produced
  split <;> exact nofun

theorem decided_stripped (display lead : String) {run : Cursor → Reading}
    (ofRun : ∀ adjusted, (run adjusted).Decided) :
    Decided (.stripped display lead .error run context cursor) := by
  unfold Attempt.stripped
  split
  · exact nofun
  · split
    · exact nofun
    next adjusted _ =>
      dsimp only
      split <;> exact ofRun adjusted

theorem decided_sequence (mode : Mode) (name : String)
    (compute : Context → Except ArgumentError Value) (parts : List Reader) :
    Decided (sequence mode name compute parts context cursor) := by
  -- A sequence does not wait for its parts, whatever they do.
  unfold sequence
  dsimp only
  split
  · exact nofun
  · split <;> exact nofun

theorem decided_firstFrom {alternatives : List Reader} (name : String)
    (ofAlternatives : ∀ alternative ∈ alternatives, ∀ context,
      (alternative context cursor).Decided)
    (index : Nat) {tally : Tally} (noneWaits : tally.deferred = []) :
    Decided (firstFrom name cursor index tally alternatives context) := by
  -- An alternation waits only for an alternative that does.
  induction alternatives generalizing index tally context with
  | nil =>
    intro signal
    simp only [firstFrom, Tally.outcome, noneWaits]
    split
    · exact nofun
    · split <;> exact nofun
  | cons alternative rest ih =>
    obtain ⟨first, others⟩ := List.forall_mem_cons.mp ofAlternatives
    unfold firstFrom
    dsimp only
    split
    next => exact first context
    next => exact ih others (index + 1) noneWaits
    next signal came => exact absurd came (first context signal)
    next cause _ =>
      have noneMore : (tally.addError cause).deferred = [] := by
        unfold Tally.addError
        split <;> exact noneWaits
      exact ih others (index + 1) noneMore

theorem decided_identifier {σ : Type} (rules : IdRules σ) (input : Input σ) (inner : Reader) :
    Decided (identifier rules input inner context cursor) := by
  unfold identifier
  split
  · exact nofun
  · dsimp only
    split
    next => exact nofun
    next came => exact .of_ok came
    next => split <;> exact nofun

theorem decided_object {σ : Type} (rules : ObjectRules σ) (render : Value → String)
    (input : Input σ) (id : Reader) : Decided (object rules render input id context cursor) := by
  unfold object
  dsimp only
  split
  next => exact nofun
  next came => exact .of_ok came
  next =>
    split
    · exact nofun
    · exact nofun
    · split <;> exact nofun

end

end Reading

namespace Argument

variable {σ : Type}

theorem isFallback_of_mem {label : Label} {alternatives : List (Argument σ)}
    {style : AlternationStyle} (steady : (firstOf label alternatives style).isFallback = false) :
    ∀ alternative ∈ alternatives, alternative.isFallback = false := by
  have none : ((infos alternatives).any (·.fallback)) = false := steady
  rw [infos_eq_map, List.any_map, List.any_eq_false] at none
  intro alternative inside
  exact Bool.eq_false_iff.mpr (none alternative inside)

theorem decided_read (input : Input σ) {argument : Argument σ}
    (steady : argument.isFallback = false) (mode : Mode) (context : Context) (cursor : Cursor) :
    (argument.read input mode context cursor).Decided := by
  -- The mark comes up from wherever a decision may be put off.
  induction argument generalizing mode context cursor with
  | literal name word => exact Reading.decided_literal word
  | integer label kind => exact (Reading.decided_integer _ kind).kept mode _
  | text label joinsRest => exact (Reading.decided_text _ joinsRest).kept mode _
  | boolean label => exact (Reading.decided_boolean _).kept mode _
  | recorder => cases steady
  | fixed => exact (Reading.decided_produced _).kept mode _
  | fromInvoker => exact (Reading.decided_produced _).kept mode _
  | targeted => exact (Reading.decided_produced _).kept mode _
  | optional inner ih => exact (ih steady mode context cursor).orAbsent _ cursor
  | named inner ih =>
    refine Reading.Decided.wrapped (Reading.decided_stripped _ _ fun adjusted => ?_) inner.name
    exact ih steady mode context adjusted
  | mapped inner mapping ih =>
    exact ((ih steady .viewing context cursor).mapped _ mapping).kept mode _
  | fallback => cases steady
  | sequence label parts compute => exact Reading.decided_sequence mode _ compute _
  | firstOf label alternatives style ofAlternatives =>
    refine Reading.Decided.kept ?_ mode label.name
    refine Reading.decided_firstFrom label.name (fun reader inside context => ?_) 0 rfl
    rw [readers_eq_map] at inside
    obtain ⟨alternative, member, rfl⟩ := List.mem_map.mp inside
    exact ofAlternatives alternative member (isFallback_of_mem steady alternative member) mode
      context cursor
  | objectId rules inner => exact (Reading.decided_identifier rules input _).kept mode _
  | objectById rules id inner => exact (Reading.decided_object rules _ input _).kept mode _

end Argument

end CommandLine
