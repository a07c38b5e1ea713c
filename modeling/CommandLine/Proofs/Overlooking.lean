import CommandLine.Proofs.Likeness
import CommandLine.Proofs.Resolving

/-! What resolving an argument can make a difference of.

The same holds of a resolution as of a reading: where the context, the signal and
the tokens in front of the cursor look the same, so does what it comes to.
-/

set_option autoImplicit false

namespace CommandLine

variable {sight : Sight}

abbrev Resolution.Alike (sight : Sight) (left right : Resolution) : Prop :=
  Attempt.Alike sight sight.Errors (Option.Rel sight.Values) left right

def Resolver.Overlooks (sight : Sight) (resolver : Resolver) : Prop :=
  ∀ ⦃context context' cursor cursor' signal signal'⦄ parsingFailed,
    sight.Contexts context context' → cursor.Level cursor' → sight.Signals signal signal' →
      Resolution.Alike sight (resolver context cursor signal parsingFailed)
        (resolver context' cursor' signal' parsingFailed)

theorem Reading.Alike.settled {left right : Reading} (h : left.Alike sight right) :
    left.settled.Alike sight right.settled := by
  refine Attempt.Alike.elim h ?ok ?error
  case ok => exact fun same contexts level => ⟨.ok same, contexts, level⟩
  case error => exact fun same contexts level => ⟨.error same.rootCause, contexts, level⟩

namespace Resolution

@[elab_as_elim]
theorem Alike.cases {motive : Resolution → Resolution → Prop} {left right : Resolution}
    (h : left.Alike sight right)
    (value : ∀ {value value' context context' cursor cursor' events events'},
      sight.Values value value' → sight.Contexts context context' → cursor.Level cursor' →
        motive ⟨.ok (some value), context, cursor, events⟩
          ⟨.ok (some value'), context', cursor', events'⟩)
    (absent : ∀ {context context' cursor cursor' events events'},
      sight.Contexts context context' → cursor.Level cursor' →
        motive ⟨.ok none, context, cursor, events⟩ ⟨.ok none, context', cursor', events'⟩)
    (error : ∀ {cause cause' context context' cursor cursor' events events'},
      sight.Errors cause cause' → sight.Contexts context context' → cursor.Level cursor' →
        motive ⟨.error cause, context, cursor, events⟩
          ⟨.error cause', context', cursor', events'⟩) : motive left right := by
  refine Attempt.Alike.elim h (fun same contexts level => ?_) error
  cases same with
  | none => exact absent contexts level
  | some same => exact value same contexts level

variable {resolver : Resolver}

theorem overlooks_unanswered : unanswered.Overlooks sight :=
  fun _ _ _ _ _ _ _ contexts level signals => ⟨.error signals.rootCause, contexts, level⟩

theorem overlooks_unwrapped (ofInner : resolver.Overlooks sight) :
    (unwrapped resolver).Overlooks sight := by
  intro context context' cursor cursor' signal signal' parsingFailed contexts level signals
  unfold unwrapped
  refine rel_elim signals.inner? ?none ?some
  case none => exact ⟨.error signals.rootCause, contexts, level⟩
  case some => exact fun same => ofInner parsingFailed contexts level same

theorem overlooks_orAbsent (ofInner : resolver.Overlooks sight) :
    (orAbsent resolver).Overlooks sight := by
  refine overlooks_unwrapped
    fun context context' cursor cursor' signal signal' parsingFailed contexts back signals => ?_
  dsimp only
  refine (ofInner parsingFailed contexts back signals).elim ?ok ?error
  case ok => exact fun same contexts level => ⟨.ok same, contexts, level⟩
  case error => exact fun _ contexts _ => ⟨.ok .none, contexts, back⟩

theorem overlooks_named (display lead : String) (ofInner : resolver.Overlooks sight)
    (forward : ∀ context (cursor : Cursor) signal parsingFailed,
      cursor.Reaches (resolver context cursor signal parsingFailed).cursor) :
    (named display lead resolver).Overlooks sight := by
  refine overlooks_unwrapped
    fun context context' cursor cursor' signal signal' parsingFailed contexts level signals => ?_
  refine Attempt.alike_stripped (fun _ => .refl _) ?_ ?_ ?_ contexts level
  · exact fun copies => ofInner parsingFailed contexts copies signals
  · exact fun adjusted => forward context adjusted signal parsingFailed
  · exact fun adjusted => forward context' adjusted signal' parsingFailed

theorem overlooks_mapped (name : String) {mapping : Value → Except ArgumentError Value}
    (impartial : ∀ ⦃value value'⦄, sight.Values value value' →
      Outcomes sight.Errors sight.Values (mapping value) (mapping value'))
    (ofInner : resolver.Overlooks sight) : (mapped name mapping resolver).Overlooks sight := by
  refine overlooks_unwrapped
    fun context context' cursor cursor' signal signal' parsingFailed contexts level signals => ?_
  dsimp only
  refine Alike.cases (ofInner parsingFailed contexts level signals) ?value ?absent ?error
  case value =>
    intro value value' _ _ _ _ _ _ same contexts level
    dsimp only
    refine (impartial same).elim (fun images => ?_) (fun causes => ?_)
    · exact ⟨.ok (.some images), contexts.put name images, level⟩
    · exact ⟨.error causes, contexts, level⟩
  case absent => exact fun contexts level => ⟨.ok .none, contexts, level⟩
  case error => exact fun same contexts level => ⟨.error same, contexts, level⟩

theorem overlooks_recorder (name : String) : (recorder name).Overlooks sight := by
  intro context context' cursor cursor' signal signal' parsingFailed contexts level signals
  cases parsingFailed with
  | true => exact ⟨.error signals.rootCause, contexts, level⟩
  | false => exact ⟨.ok (.some rfl), contexts.put name rfl, level⟩

theorem overlooks_produce (name : String) {producer again : Reader}
    (ofProducer : producer.Overlooks sight) (ofAgain : again.Overlooks sight) :
    (produce name producer again).Overlooks sight := by
  intro context context' cursor cursor' signal signal' parsingFailed contexts back signals
  have produced := ofProducer contexts back
  unfold produce
  dsimp only
  refine Attempt.Alike.elim produced (fun same contexts level => ?_)
    (fun same contexts level => ?_)
  · cases same with
    | none => exact ⟨.ok .none, contexts, level⟩
    | some same => exact ⟨.ok (.some same), contexts.put name same, level⟩
  · dsimp only
    rw [same.rootCause.isCircumstantial]
    split
    · exact ⟨.error same.rootCause, contexts, level⟩
    · split
      · exact ⟨.error signals.rootCause, contexts, level⟩
      · exact (ofAgain contexts back).settled.after _ _

theorem overlooks_fallback (name : String) {chained : Option Resolver} {producer again : Reader}
    (ofChained : ∀ resolver ∈ chained, resolver.Overlooks sight)
    (ofProducer : producer.Overlooks sight) (ofAgain : again.Overlooks sight) :
    (fallback name chained producer again).Overlooks sight := by
  intro context context' cursor cursor' signal signal' parsingFailed contexts back signals
  have produced := overlooks_produce name ofProducer ofAgain
  unfold fallback
  refine rel_elim signals.inner? (produced parsingFailed contexts back signals) fun below => ?_
  cases chained with
  | none => exact produced parsingFailed contexts back below
  | some resolver =>
    dsimp only
    refine (ofChained resolver rfl parsingFailed contexts back below).elim ?ok ?error
    case ok => exact fun same contexts level => ⟨.ok same, contexts, level⟩
    case error => exact fun _ contexts _ => (produced parsingFailed contexts back below).after _ _

theorem alike_firstFrom {alternatives : List Resolver}
    (ofAlternatives : ∀ alternative ∈ alternatives, alternative.Overlooks sight) (name : String)
    (parsingFailed : Bool) {branches branches' : List (Nat × Signal)} {tally tally' : Tally}
    {context context' : Context} {start start' : Cursor}
    (signals : sight.branches branches = sight.branches branches')
    (tallies : tally.Alike sight tally') (contexts : sight.Contexts context context')
    (back : start.Level start') :
    (firstFrom name start parsingFailed alternatives branches tally context).Alike sight
      (firstFrom name start' parsingFailed alternatives branches' tally' context') := by
  induction branches generalizing branches' tally tally' context context' with
  | nil =>
    cases branches' with
    | cons => cases signals
    | nil =>
      unfold firstFrom
      refine (tallies.outcome name).elim ?ok ?error
      case ok => exact fun same => ⟨.ok same, contexts, back⟩
      case error => exact fun same => ⟨.error same.rootCause, contexts, back⟩
  | cons branch rest ih =>
    cases branches' with
    | nil => cases signals
    | cons branch' rest' =>
      obtain ⟨index, signal⟩ := branch
      obtain ⟨index', signal'⟩ := branch'
      obtain ⟨heads, tails⟩ := List.cons.inj signals
      obtain ⟨rfl, same⟩ := Prod.mk.inj heads
      unfold firstFrom
      cases here : alternatives[index]? with
      | none => exact ih tails tallies contexts
      | some resolver =>
        have first := ofAlternatives resolver (List.mem_of_getElem? here)
        dsimp only
        refine Alike.cases (first parsingFailed contexts back same) ?value ?absent ?error
        case value =>
          exact fun same contexts level => ⟨.ok (.some same), contexts.put name same, level⟩
        case absent => exact fun contexts _ => (ih tails tallies.addAbsent contexts).after _ _
        case error =>
          exact fun same contexts _ => (ih tails (tallies.addError same) contexts).after _ _

theorem overlooks_firstOf (name : String) {alternatives : List Resolver}
    (ofAlternatives : ∀ alternative ∈ alternatives, alternative.Overlooks sight) :
    (firstOf name alternatives).Overlooks sight := by
  intro context context' cursor cursor' signal signal' parsingFailed contexts level signals
  have causes := signals.rootCause
  cases signal with
  | branched argument index first others =>
    cases signal' with
    | branched argument' index' first' others' =>
      obtain ⟨-, indices, firsts, tails⟩ := Signal.branched.inj signals
      refine alike_firstFrom ofAlternatives name parsingFailed ?_ (.empty sight) contexts level
      rw [Sight.branches, Sight.branches, indices, firsts, tails]
    | _ => exact nomatch signals
  | _ =>
    cases signal' with
    | branched => exact nomatch signals
    | _ => exact ⟨.error causes, contexts, level⟩

end Resolution

namespace Argument

variable {σ : Type}

theorem overlooks_resolve {input : Input σ} {argument : Argument σ}
    (impartial : argument.Everywhere (·.Impartial sight input)) :
    (argument.resolve input).Overlooks sight := by
  induction argument with
  | recorder name accepted => exact Resolution.overlooks_recorder name
  | optional inner ih => exact Resolution.overlooks_orAbsent (ih impartial.optional)
  | named inner ih =>
    exact Resolution.overlooks_named _ _ (ih impartial.named)
      fun context cursor signal parsingFailed =>
        (alwaysKeeps_resolve input inner context cursor signal parsingFailed).forward
  | mapped inner mapping ih =>
    exact Resolution.overlooks_mapped _ impartial.self (ih impartial.mapped)
  | fallback primary producer ofPrimary _ =>
    refine Resolution.overlooks_fallback _ ?_ (overlooks_read .viewing impartial.producer)
      (overlooks_read .storing impartial.primary)
    exact fun resolver chained =>
      Resolution.of_mem_chained chained (ofPrimary impartial.primary)
  | firstOf label alternatives style ofAlternatives =>
    refine Resolution.overlooks_firstOf _ ?_
    rw [resolvers_eq_map]
    exact List.forall_mem_map.mpr fun alternative member =>
      ofAlternatives alternative member (impartial.alternative _ member)
  | _ => exact Resolution.overlooks_unanswered

end Argument

end CommandLine
