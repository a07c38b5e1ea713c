import CommandLine.Argument.Resolve
import CommandLine.Proofs.Backtracking

/-! What resolving an argument may do to the context and the cursor.

It stays on the tokens it was given, never moves back, leaves the cursor alone
when the argument is absent, and stores under names of the tree only.
-/

set_option autoImplicit false

namespace CommandLine

namespace Resolution

/-- What resolving does to the context and the cursor it started from. -/
structure Keeps (stored : List String) (context : Context) (cursor : Cursor)
    (resolution : Resolution) : Prop where
  forward : cursor.Reaches resolution.cursor
  absent : resolution.outcome = .ok none → resolution.cursor = cursor
  stores : context.StoredUnder stored resolution.context

section

variable {stored : List String} {context middle : Context} {cursor : Cursor}
  {resolution : Resolution}

theorem keeps_fail (cause : ArgumentError) (stored : List String) (context : Context)
    (cursor : Cursor) : Keeps stored context cursor (.fail cause context cursor) :=
  ⟨.refl _, nofun, .refl ..⟩

namespace Keeps

theorem mono {more : List String} (h : resolution.Keeps stored context cursor)
    (inside : ∀ name ∈ stored, name ∈ more) : resolution.Keeps more context cursor :=
  ⟨h.forward, h.absent, h.stores.mono inside⟩

theorem after (h : resolution.Keeps stored context cursor) (earlier : List Event) :
    Keeps stored context cursor (Attempt.after resolution earlier) :=
  ⟨h.forward, h.absent, h.stores⟩

theorem fail (h : resolution.Keeps stored context cursor) (cause : ArgumentError) :
    Keeps stored context cursor { resolution with outcome := .error cause } :=
  ⟨h.forward, nofun, h.stores⟩

theorem since (h : resolution.Keeps stored middle cursor)
    (earlier : context.StoredUnder stored middle) : resolution.Keeps stored context cursor :=
  ⟨h.forward, h.absent, earlier.trans h.stores⟩

end Keeps

end

def AlwaysKeeps (stored : List String) (resolver : Resolver) : Prop :=
  ∀ context cursor signal parsingFailed,
    (resolver context cursor signal parsingFailed).Keeps stored context cursor

namespace AlwaysKeeps

variable {stored : List String} {resolver : Resolver}

theorem mono {more : List String} (h : AlwaysKeeps stored resolver)
    (inside : ∀ name ∈ stored, name ∈ more) : AlwaysKeeps more resolver :=
  fun context cursor signal parsingFailed => (h context cursor signal parsingFailed).mono inside

theorem unwrapped (h : AlwaysKeeps stored resolver) :
    AlwaysKeeps stored (Resolution.unwrapped resolver) := by
  intro context cursor signal parsingFailed
  unfold Resolution.unwrapped
  split
  next => exact keeps_fail ..
  next => exact h ..

theorem orAbsent (h : AlwaysKeeps stored resolver) :
    AlwaysKeeps stored (Resolution.orAbsent resolver) := by
  refine unwrapped fun context cursor signal parsingFailed => ?_
  have kept := h context cursor signal parsingFailed
  dsimp only
  split
  next => exact kept
  next => exact ⟨.refl _, fun _ => rfl, kept.stores⟩

theorem named (h : AlwaysKeeps stored resolver) (display lead : String) :
    AlwaysKeeps stored (Resolution.named display lead resolver) := by
  refine unwrapped fun context cursor signal parsingFailed => ?_
  rcases Attempt.stripped_cases display lead id
      (fun adjusted => resolver context adjusted signal parsingFailed) context cursor with
    ⟨-, cause, eq⟩ | ⟨adjusted, strip, ⟨failure, came, eq⟩ | ⟨value, came, eq⟩⟩
  · rw [eq]
    exact keeps_fail ..
  · rw [eq]
    have kept := h context adjusted signal parsingFailed
    exact ⟨.refl _, by simp [came], kept.stores⟩
  · rw [eq]
    have kept := h context adjusted signal parsingFailed
    -- The copy counts its position from the same start, and it is put back on the tokens.
    obtain ⟨position, -⟩ := Cursor.position_of_stripNext? strip
    refine ⟨⟨rfl, ?_⟩, fun none => ?_, kept.stores⟩
    · exact Nat.le_min.mpr ⟨position ▸ kept.forward.forward, cursor.position_le⟩
    · show cursor.restore (resolver context adjusted signal parsingFailed).cursor.position = cursor
      rw [kept.absent none, position, Cursor.restore_position]

theorem mapped (h : AlwaysKeeps stored resolver) {name : String} (inside : name ∈ stored)
    (mapping : Value → Except ArgumentError Value) :
    AlwaysKeeps stored (Resolution.mapped name mapping resolver) := by
  refine unwrapped fun context cursor signal parsingFailed => ?_
  have kept := h context cursor signal parsingFailed
  dsimp only
  split
  next => exact kept
  next => exact kept
  next =>
    split
    next => exact kept.fail _
    next => exact ⟨kept.forward, nofun, kept.stores.put inside _⟩

end AlwaysKeeps

/-- The producer is only viewed, so that nothing but its value is stored. -/
theorem produce_keeps {stored : List String} {name : String} {producer again : Reader}
    (ofProducer : ∀ context cursor, (producer context cursor).Backtracks [] context cursor)
    (ofAgain : ∀ context cursor, (again context cursor).Backtracks stored context cursor)
    (inside : name ∈ stored) : AlwaysKeeps stored (produce name producer again) := by
  intro context cursor signal parsingFailed
  have produced := ofProducer context cursor
  have stores : context.StoredUnder stored (producer context cursor).context :=
    produced.stores.mono nofun
  unfold produce
  dsimp only
  split
  next came => exact ⟨produced.forward, fun _ => (produced.absent came).2, stores⟩
  next value _ => exact ⟨produced.forward, nofun, stores.put inside value⟩
  next =>
    split
    next => exact ⟨produced.forward, nofun, stores⟩
    next =>
      split
      next => exact ⟨produced.forward, nofun, stores⟩
      next =>
        have read := ofAgain (producer context cursor).context cursor
        refine (Keeps.mk read.forward (fun none => ?_) (stores.trans read.stores)).after _
        unfold Reading.settled Attempt.mapError at none
        dsimp only at none
        split at none
        next value came => exact (read.absent (came.trans (congrArg _ (Except.ok.inj none)))).2
        next => cases none

theorem of_mem_chained {holds : Resolver → Prop} {waits : Bool} {resolver chained : Resolver}
    (inside : chained ∈ if waits then some resolver else none) (h : holds resolver) :
    holds chained := by
  split at inside
  · cases inside
    exact h
  · cases inside

theorem fallback_keeps {stored : List String} {name : String} {chained : Option Resolver}
    {producer again : Reader} (ofChained : ∀ resolver ∈ chained, AlwaysKeeps stored resolver)
    (ofProducer : ∀ context cursor, (producer context cursor).Backtracks [] context cursor)
    (ofAgain : ∀ context cursor, (again context cursor).Backtracks stored context cursor)
    (inside : name ∈ stored) : AlwaysKeeps stored (fallback name chained producer again) := by
  intro context cursor signal parsingFailed
  have produced := produce_keeps ofProducer ofAgain inside
  unfold fallback
  cases signal.inner? with
  | none => exact produced ..
  | some below =>
    cases chained with
    | none => exact produced ..
    | some resolver =>
      have kept := ofChained resolver rfl context cursor below parsingFailed
      dsimp only
      split
      next => exact kept
      next => exact ((produced ..).since kept.stores).after _

theorem firstFrom_keeps {stored : List String} {name : String} {alternatives : List Resolver}
    (ofAlternatives : ∀ alternative ∈ alternatives, AlwaysKeeps stored alternative)
    (inside : name ∈ stored) (cursor : Cursor) (parsingFailed : Bool)
    (branches : List (Nat × Signal)) (tally : Tally) (context : Context) :
    (firstFrom name cursor parsingFailed alternatives branches tally context).Keeps stored context
      cursor := by
  induction branches generalizing tally context with
  | nil => exact ⟨.refl _, fun _ => rfl, .refl ..⟩
  | cons branch rest ih =>
    obtain ⟨index, signal⟩ := branch
    unfold firstFrom
    dsimp only
    split
    next => exact ih ..
    next resolver at_ =>
      have kept := ofAlternatives resolver (List.mem_of_getElem? at_) context cursor signal
        parsingFailed
      split
      next value came => exact ⟨kept.forward, by simp [came], kept.stores.put inside value⟩
      next => exact ((ih ..).since kept.stores).after _
      next => exact ((ih ..).since kept.stores).after _

end Resolution

variable {σ : Type}

namespace Argument

theorem alwaysKeeps_resolve (input : Input σ) (argument : Argument σ) :
    Resolution.AlwaysKeeps argument.nodeNames (argument.resolve input) := by
  induction argument with
  | recorder name accepted =>
    intro context cursor signal parsingFailed
    rw [resolve]
    unfold Resolution.recorder
    split
    · exact ⟨.refl _, nofun, .refl ..⟩
    · exact ⟨.refl _, nofun, (Table.StoredUnder.refl ..).put (name_mem_nodeNames _) _⟩
  | optional inner ih =>
    exact ih.orAbsent.mono fun name inside => List.mem_cons_of_mem _ inside
  | named inner ih =>
    exact (ih.named _ _).mono fun name inside => List.mem_cons_of_mem _ inside
  | mapped inner mapping ih =>
    exact (ih.mapped inner.name_mem_nodeNames mapping).mono fun name inside =>
      List.mem_cons_of_mem _ inside
  | fallback primary producer ofPrimary _ =>
    refine Resolution.fallback_keeps ?_ (backtracks_read input .viewing producer) ?_
      (name_mem_nodeNames _)
    · exact fun resolver chained =>
        Resolution.of_mem_chained chained (ofPrimary.mono fun name => mem_nodeNames_fallback)
    · intro context cursor
      exact (backtracks_read input .storing primary context cursor).mono fun name inside =>
        mem_nodeNames_fallback (primary.stored_subset_nodeNames inside)
  | firstOf label alternatives style ofAlternatives =>
    intro context cursor signal parsingFailed
    rw [resolve]
    unfold Resolution.firstOf
    split
    next =>
      refine Resolution.firstFrom_keeps ?_ (name_mem_nodeNames _) ..
      rw [resolvers_eq_map]
      intro resolver inside
      obtain ⟨alternative, member, rfl⟩ := List.mem_map.mp inside
      exact (ofAlternatives alternative member).mono fun name below =>
        List.mem_cons_of_mem _ (mem_map_name_nodesOfAll member below)
    next => exact Resolution.keeps_fail ..
  | _ => exact fun context cursor signal _ => Resolution.keeps_fail ..

end Argument

end CommandLine
