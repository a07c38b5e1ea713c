import CommandLine.Proofs.Level
import CommandLine.Proofs.Sight

/-! What reading an argument can make a difference of.

From level cursors, and from contexts that are alike to a sight, an argument is
read with attempts that are alike again, as long as what the application added
to the tree makes no difference of what the sight cannot tell apart. So reading
depends on the tokens in front of the cursor alone, and not on those behind it.
-/

set_option autoImplicit false

namespace CommandLine

inductive Outcomes {ε α : Type} (errors : ε → ε → Prop) (values : α → α → Prop) :
    Except ε α → Except ε α → Prop where
  | ok {left right : α} (same : values left right) : Outcomes errors values (.ok left) (.ok right)
  | error {left right : ε} (same : errors left right) :
    Outcomes errors values (.error left) (.error right)

namespace Outcomes

variable {ε α : Type} {errors : ε → ε → Prop} {values : α → α → Prop} {left right : Except ε α}

theorem refl (ofErrors : ∀ cause, errors cause cause) (ofValues : ∀ value, values value value)
    (outcome : Except ε α) : Outcomes errors values outcome outcome := by
  cases outcome with
  | ok value => exact .ok (ofValues value)
  | error cause => exact .error (ofErrors cause)

theorem eq (h : Outcomes errors values left right)
    (ofErrors : ∀ {cause cause'}, errors cause cause' → cause = cause')
    (ofValues : ∀ {value value'}, values value value' → value = value') : left = right := by
  cases h with
  | ok same => rw [ofValues same]
  | error same => rw [ofErrors same]

@[elab_as_elim]
theorem elim {motive : Except ε α → Except ε α → Prop} (h : Outcomes errors values left right)
    (ok : ∀ {value value'}, values value value' → motive (.ok value) (.ok value'))
    (error : ∀ {cause cause'}, errors cause cause' → motive (.error cause) (.error cause')) :
    motive left right := by
  cases h with
  | ok same => exact ok same
  | error same => exact error same

end Outcomes

section

variable {α : Type} {related : α → α → Prop} {first first' second second' : Option α}

theorem rel_refl (ofValues : ∀ value, related value value) (value : Option α) :
    Option.Rel related value value := by
  cases value with
  | none => exact .none
  | some value => exact .some (ofValues value)

theorem rel_eq (h : Option.Rel related first first')
    (ofValues : ∀ {value value'}, related value value' → value = value') : first = first' := by
  cases h with
  | none => rfl
  | some same => rw [ofValues same]

theorem rel_or (h : Option.Rel related first first') (others : Option.Rel related second second') :
    Option.Rel related (first.or second) (first'.or second') := by
  cases h with
  | none => exact others
  | some same => exact .some same

@[elab_as_elim]
theorem rel_elim {motive : Option α → Option α → Prop} (h : Option.Rel related first first')
    (none : motive none none)
    (some : ∀ {value value'}, related value value' → motive (some value) (some value')) :
    motive first first' := by
  cases h with
  | none => exact none
  | some same => exact some same

end

namespace Attempt

variable {ε α : Type}

structure Alike (sight : Sight) (errors : ε → ε → Prop) (values : α → α → Prop)
    (left right : Attempt ε α) : Prop where
  outcome : Outcomes errors values left.outcome right.outcome
  context : sight.Contexts left.context right.context
  cursor : left.cursor.Level right.cursor

variable {sight : Sight} {errors : ε → ε → Prop} {values : α → α → Prop} {left right : Attempt ε α}

theorem Alike.after (h : left.Alike sight errors values right) (earlier earlier' : List Event) :
    (left.after earlier).Alike sight errors values (right.after earlier') :=
  ⟨h.outcome, h.context, h.cursor⟩

@[elab_as_elim]
theorem Alike.elim {motive : Attempt ε α → Attempt ε α → Prop}
    (h : left.Alike sight errors values right)
    (ok : ∀ {value value' context context' cursor cursor' events events'}, values value value' →
      sight.Contexts context context' → cursor.Level cursor' →
        motive ⟨.ok value, context, cursor, events⟩ ⟨.ok value', context', cursor', events'⟩)
    (error : ∀ {cause cause' context context' cursor cursor' events events'}, errors cause cause' →
      sight.Contexts context context' → cursor.Level cursor' →
        motive ⟨.error cause, context, cursor, events⟩
          ⟨.error cause', context', cursor', events'⟩) : motive left right := by
  obtain ⟨outcome, context, cursor, events⟩ := left
  obtain ⟨outcome', context', cursor', events'⟩ := right
  obtain ⟨outcomes, contexts, level⟩ := h
  cases outcomes with
  | ok same => exact ok same contexts level
  | error same => exact error same contexts level

theorem alike_stripped {display lead : String} {refuse : ArgumentError → ε}
    {run run' : Cursor → Attempt ε α} {context context' : Context} {cursor cursor' : Cursor}
    (refused : ∀ cause, errors (refuse cause) (refuse cause))
    (ofRun : ∀ {adjusted adjusted'}, adjusted.Level adjusted' →
      (run adjusted).Alike sight errors values (run' adjusted'))
    (forward : ∀ adjusted : Cursor, adjusted.Reaches (run adjusted).cursor)
    (forward' : ∀ adjusted : Cursor, adjusted.Reaches (run' adjusted).cursor)
    (contexts : sight.Contexts context context') (level : cursor.Level cursor') :
    (stripped display lead refuse run context cursor).Alike sight errors values
      (stripped display lead refuse run' context' cursor') := by
  unfold stripped
  rw [← level.peek]
  cases cursor.peek with
  | none => exact ⟨.error (refused _), contexts, level⟩
  | some token =>
    rcases level.stripNext?_cases lead with
      ⟨strip, strip'⟩ | ⟨adjusted, adjusted', strip, strip', copies⟩
    · rw [strip, strip']
      exact ⟨.error (refused _), contexts, level⟩
    · rw [strip, strip']
      have ran := ofRun copies
      have restored := level.restore strip strip' copies (forward adjusted) (forward' adjusted')
        ran.cursor
      dsimp only
      revert restored
      refine ran.elim ?ok ?error
      case ok => exact fun same contexts _ restored => ⟨.ok same, contexts, restored⟩
      case error => exact fun same contexts _ _ => ⟨.error same, contexts, level⟩

end Attempt

variable {sight : Sight}

namespace Sight

theorem Values.refl (value : Value) : sight.Values value value :=
  rfl

theorem Errors.refl (cause : ArgumentError) : sight.Errors cause cause :=
  rfl

theorem Failures.refl (failure : Failure) : sight.Failures failure failure := by
  cases failure with
  | error => exact .error rfl
  | deferred => exact .deferred rfl

end Sight

abbrev Reading.Alike (sight : Sight) (left right : Reading) : Prop :=
  Attempt.Alike sight sight.Failures (Option.Rel sight.Values) left right

def Reader.Overlooks (sight : Sight) (reader : Reader) : Prop :=
  ∀ ⦃context context' cursor cursor'⦄, sight.Contexts context context' → cursor.Level cursor' →
    Reading.Alike sight (reader context cursor) (reader context' cursor')

namespace Filter

variable {σ : Type}

/-- The filter makes no difference of what is alike. -/
structure Impartial (sight : Sight) (input : Input σ) (filter : Filter σ) : Prop where
  accepts : ∀ ⦃context context' value value'⦄, sight.Contexts context context' →
    sight.Values value value' →
      filter.accepts input context value = filter.accepts input context' value'
  message : ∀ argument typed ⦃value value'⦄, sight.Values value value' →
    filter.message argument typed value = filter.message argument typed value'

theorem Impartial.judge {input : Input σ} {filter : Filter σ} (h : filter.Impartial sight input)
    {context context' : Context} {value value' : Value} (argument typed : String)
    (contexts : sight.Contexts context context') (values : sight.Values value value') :
    Outcomes sight.Errors sight.Values (filter.judge input context argument typed value)
      (filter.judge input context' argument typed value') := by
  unfold Filter.judge
  rw [h.accepts contexts values, h.message argument typed values]
  split
  · exact .ok values
  · exact .error (.rejected values ..)

theorem impartial_full (input : Input σ) (filter : Filter σ) : filter.Impartial .full input where
  accepts _ _ _ _ contexts values := by rw [contexts.eq, values.eq]
  message _ _ _ _ values := by rw [values.eq]

end Filter

namespace Reading

section

variable {left right : Reading}

@[elab_as_elim]
theorem Alike.cases {motive : Reading → Reading → Prop} (h : left.Alike sight right)
    (value : ∀ {value value' context context' cursor cursor' events events'},
      sight.Values value value' → sight.Contexts context context' → cursor.Level cursor' →
        motive ⟨.ok (some value), context, cursor, events⟩
          ⟨.ok (some value'), context', cursor', events'⟩)
    (absent : ∀ {context context' cursor cursor' events events'},
      sight.Contexts context context' → cursor.Level cursor' →
        motive ⟨.ok none, context, cursor, events⟩ ⟨.ok none, context', cursor', events'⟩)
    (error : ∀ {cause cause' context context' cursor cursor' events events'},
      sight.Errors cause cause' → sight.Contexts context context' → cursor.Level cursor' →
        motive ⟨.error (.error cause), context, cursor, events⟩
          ⟨.error (.error cause'), context', cursor', events'⟩)
    (deferred : ∀ {signal signal' context context' cursor cursor' events events'},
      sight.Signals signal signal' → sight.Contexts context context' → cursor.Level cursor' →
        motive ⟨.error (.deferred signal), context, cursor, events⟩
          ⟨.error (.deferred signal'), context', cursor', events'⟩) : motive left right := by
  refine Attempt.Alike.elim h (fun same contexts level => ?_) (fun same contexts level => ?_)
  · cases same with
    | none => exact absent contexts level
    | some same => exact value same contexts level
  · cases same with
    | error same => exact error same contexts level
    | deferred same => exact deferred same contexts level

theorem Alike.kept (h : left.Alike sight right) (mode : Mode) (name : String) :
    (left.kept mode name).Alike sight (right.kept mode name) := by
  cases mode with
  | viewing => exact h
  | storing =>
    refine h.cases ?value ?absent ?error ?deferred
    case value => exact fun same contexts level => ⟨.ok (.some same), contexts.put name same, level⟩
    case absent => exact fun contexts level => ⟨.ok .none, contexts, level⟩
    case error => exact fun same contexts level => ⟨.error (.error same), contexts, level⟩
    case deferred => exact fun same contexts level => ⟨.error (.deferred same), contexts, level⟩

theorem Alike.wrapped (h : left.Alike sight right) (name : String) :
    (left.wrapped name).Alike sight (right.wrapped name) := by
  refine h.cases ?value ?absent ?error ?deferred
  case value => exact fun same contexts level => ⟨.ok (.some same), contexts, level⟩
  case absent => exact fun contexts level => ⟨.ok .none, contexts, level⟩
  case error => exact fun same contexts level => ⟨.error (.error same), contexts, level⟩
  case deferred =>
    exact fun same contexts level => ⟨.error (.deferred (same.wrapped name)), contexts, level⟩

theorem Alike.orAbsent (h : left.Alike sight right) (name : String) {start start' : Cursor}
    (back : start.Level start') :
    (left.orAbsent name start).Alike sight (right.orAbsent name start') := by
  refine h.cases ?value ?absent ?error ?deferred
  case value => exact fun same contexts level => ⟨.ok (.some same), contexts, level⟩
  case absent => exact fun contexts level => ⟨.ok .none, contexts, level⟩
  case error => exact fun _ contexts _ => ⟨.ok .none, contexts, back⟩
  case deferred =>
    exact fun same contexts level => ⟨.error (.deferred (same.wrapped name)), contexts, level⟩

theorem Alike.postponed (h : left.Alike sight right) (name : String) :
    (left.postponed name).Alike sight (right.postponed name) := by
  refine h.cases ?value ?absent ?error ?deferred
  case value => exact fun same contexts level => ⟨.ok (.some same), contexts, level⟩
  case absent => exact fun contexts level => ⟨.ok .none, contexts, level⟩
  case error =>
    exact fun same contexts level => ⟨.error (.deferred (.raised same name)), contexts, level⟩
  case deferred =>
    exact fun same contexts level => ⟨.error (.deferred (same.wrapped name)), contexts, level⟩

theorem Alike.mapped (h : left.Alike sight right) (name : String)
    {mapping : Value → Except ArgumentError Value}
    (impartial : ∀ ⦃value value'⦄, sight.Values value value' →
      Outcomes sight.Errors sight.Values (mapping value) (mapping value')) :
    (left.mapped name mapping).Alike sight (right.mapped name mapping) := by
  refine h.cases ?value ?absent ?error ?deferred
  case value =>
    intro value value' context context' cursor cursor' events events' same contexts level
    unfold Reading.mapped
    dsimp only
    refine (impartial same).elim (fun images => ?_) (fun causes => ?_)
    · exact ⟨.ok (.some images), contexts, level⟩
    · exact ⟨.error (.error causes), contexts, level⟩
  case absent => exact fun contexts level => ⟨.ok .none, contexts, level⟩
  case error => exact fun same contexts level => ⟨.error (.error same), contexts, level⟩
  case deferred =>
    exact fun same contexts level => ⟨.error (.deferred (same.wrapped name)), contexts, level⟩

end

theorem overlooks_token (display : String) (accept : String → Except Failure Value) :
    (token display accept).Overlooks sight := by
  intro context context' cursor cursor' contexts level
  unfold token
  rcases level.next?_cases with ⟨nothing, nothing'⟩ | ⟨word, after, after', next, next', behind⟩
  · rw [nothing, nothing']
    exact ⟨.error (.refl _), contexts, level⟩
  · rw [next, next']
    dsimp only
    split
    · exact ⟨.error (.refl _), contexts, behind⟩
    · exact ⟨.ok (.some rfl), contexts, behind⟩

theorem overlooks_text (display : String) (joinsRest : Bool) :
    (text display joinsRest).Overlooks sight := by
  unfold text
  split
  · intro context context' cursor cursor' contexts level
    dsimp only
    rw [level.hasNext, show cursor.remaining = cursor'.remaining from level]
    split
    · exact ⟨.ok (.some rfl), contexts, .toEnd cursor cursor'⟩
    · exact ⟨.error (.refl _), contexts, level⟩
  · exact overlooks_token ..

theorem alike_produced {result result' : Except ArgumentError Value} {context context' : Context}
    {cursor cursor' : Cursor} (same : Outcomes sight.Errors sight.Values result result')
    (contexts : sight.Contexts context context') (level : cursor.Level cursor') :
    (produced result context cursor).Alike sight (produced result' context' cursor') := by
  cases same with
  | ok same => exact ⟨.ok (.some same), contexts, level⟩
  | error same => exact ⟨.error (.error same), contexts, level⟩

theorem alike_inOrder {parts : List Reader} (ofParts : ∀ part ∈ parts, part.Overlooks sight)
    {context context' : Context} {cursor cursor' : Cursor}
    (contexts : sight.Contexts context context') (level : cursor.Level cursor') :
    (inOrder parts context cursor).Alike sight sight.Errors Eq
      (inOrder parts context' cursor') := by
  induction parts generalizing context context' cursor cursor' with
  | nil => exact ⟨.ok rfl, contexts, level⟩
  | cons part rest ih =>
    obtain ⟨first, others⟩ := List.forall_mem_cons.mp ofParts
    unfold inOrder
    refine Attempt.Alike.elim (first contexts level) ?ok ?error
    case ok => exact fun _ contexts level => (ih others contexts level).after _ _
    case error => exact fun same contexts level => ⟨.error same.rootCause, contexts, level⟩

theorem overlooks_sequence {parts : List Reader} (mode : Mode) (name : String)
    {compute : Context → Except ArgumentError Value}
    (ofParts : ∀ part ∈ parts, part.Overlooks sight)
    (impartial : ∀ ⦃context context'⦄, sight.Contexts context context' →
      Outcomes sight.Errors sight.Values (compute context) (compute context')) :
    (sequence mode name compute parts).Overlooks sight := by
  intro context context' cursor cursor' contexts level
  unfold sequence
  refine (alike_inOrder ofParts contexts level).elim ?ok ?error
  case error => exact fun same _ level => ⟨.error (.error same), contexts, level⟩
  case ok =>
    intro _ _ filled filled' finish finish' _ _ _ copies level
    dsimp only
    refine (impartial copies).elim (fun same => ?_) (fun same => ?_)
    · refine ⟨.ok (.some same), ?_, level⟩
      cases mode with
      | storing => exact (contexts.merge copies).put name same
      | viewing => exact contexts
    · exact ⟨.error (.error same), contexts, level⟩

end Reading

namespace Tally

structure Alike (sight : Sight) (left right : Tally) : Prop where
  deferred : sight.branches left.deferred = sight.branches right.deferred
  absent : left.absent = right.absent
  rejected : Option.Rel sight.Errors left.rejected right.rejected
  failed : Option.Rel sight.Errors left.failed right.failed

namespace Alike

variable {left right : Tally}

theorem empty (sight : Sight) : Tally.empty.Alike sight .empty :=
  ⟨rfl, rfl, .none, .none⟩

theorem addDeferred (h : left.Alike sight right) (index : Nat) {signal signal' : Signal}
    (same : sight.Signals signal signal') :
    (left.addDeferred index signal).Alike sight (right.addDeferred index signal') := by
  refine ⟨?_, h.absent, h.rejected, h.failed⟩
  have earlier := h.deferred
  rw [Sight.branches_eq_map, Sight.branches_eq_map] at earlier
  simp only [Tally.addDeferred, Sight.branches_eq_map, List.map_append, earlier, List.map_cons,
    List.map_nil, show sight.signal signal = sight.signal signal' from same]

theorem addAbsent (h : left.Alike sight right) : left.addAbsent.Alike sight right.addAbsent :=
  ⟨h.deferred, rfl, h.rejected, h.failed⟩

theorem addError (h : left.Alike sight right) {cause cause' : ArgumentError}
    (same : sight.Errors cause cause') :
    (left.addError cause).Alike sight (right.addError cause') := by
  unfold Tally.addError
  rw [same.isRejection]
  split
  · exact ⟨h.deferred, h.absent, rel_or h.rejected (.some same), h.failed⟩
  · exact ⟨h.deferred, h.absent, h.rejected, rel_or h.failed (.some same)⟩

theorem outcome (h : left.Alike sight right) (name : String) :
    Outcomes sight.Failures (Option.Rel sight.Values) (left.outcome name) (right.outcome name) := by
  obtain ⟨deferred, absent, rejected, failed⟩ := left
  obtain ⟨deferred', absent', rejected', failed'⟩ := right
  obtain ⟨branches, rfl, rejections, failures⟩ := h
  cases deferred with
  | cons first others =>
    cases deferred' with
    | nil => cases branches
    | cons first' others' =>
      obtain ⟨index, signal⟩ := first
      obtain ⟨index', signal'⟩ := first'
      obtain ⟨heads, tails⟩ := List.cons.inj branches
      obtain ⟨rfl, signals⟩ := Prod.mk.inj heads
      refine .error (.deferred ?_)
      rw [Sight.Signals, Sight.signal, Sight.signal, signals, tails]
  | nil =>
    cases deferred' with
    | cons => cases branches
    | nil =>
      cases absent with
      | true => exact .ok .none
      | false =>
        unfold Tally.outcome
        dsimp only
        refine rel_elim (rel_or rejections failures) ?none ?some
        case none => exact .ok .none
        case some => exact fun same => .error (.error same)

end Alike

end Tally

namespace Reading

theorem alike_firstFrom {alternatives : List Reader}
    (ofAlternatives : ∀ alternative ∈ alternatives, alternative.Overlooks sight) (name : String)
    (index : Nat) {tally tally' : Tally} {context context' : Context} {start start' : Cursor}
    (tallies : tally.Alike sight tally') (contexts : sight.Contexts context context')
    (back : start.Level start') :
    (firstFrom name start index tally alternatives context).Alike sight
      (firstFrom name start' index tally' alternatives context') := by
  induction alternatives generalizing index tally tally' context context' with
  | nil => exact ⟨tallies.outcome name, contexts, back⟩
  | cons alternative rest ih =>
    obtain ⟨first, others⟩ := List.forall_mem_cons.mp ofAlternatives
    unfold firstFrom
    refine Alike.cases (first contexts back) ?value ?absent ?error ?deferred
    case value => exact fun same contexts level => ⟨.ok (.some same), contexts, level⟩
    case absent => exact fun contexts _ => (ih others _ tallies.addAbsent contexts).after _ _
    case error =>
      exact fun same contexts _ => (ih others _ (tallies.addError same) contexts).after _ _
    case deferred =>
      exact fun same contexts _ => (ih others _ (tallies.addDeferred index same) contexts).after _ _

theorem overlooks_identifier {σ : Type} {rules : IdRules σ} {input : Input σ} {inner : Reader}
    (impartial : rules.filter.Impartial sight input) (ofInner : inner.Overlooks sight)
    (forward : ∀ context (cursor : Cursor), cursor.Reaches (inner context cursor).cursor) :
    (identifier rules input inner).Overlooks sight := by
  intro context context' cursor cursor' contexts level
  have read := ofInner contexts level
  have typed := level.consumedSince (forward context cursor) (forward context' cursor') read.cursor
  unfold identifier
  dsimp only
  rw [level.hasNext, typed]
  split
  · exact ⟨.error (.refl _), contexts, level⟩
  · generalize Line.joined _ = typed
    refine Alike.cases read ?value ?absent ?error ?deferred
    case value =>
      intro _ _ _ _ _ _ _ _ same contexts' level
      dsimp only
      refine (impartial.judge rules.label.shown typed contexts same).elim (fun same => ?_)
        (fun same => ?_)
      · exact ⟨.ok (.some same), contexts', level⟩
      · exact ⟨.error (.error same), contexts', level⟩
    case absent => exact fun contexts level => ⟨.ok .none, contexts, level⟩
    case error => exact fun same contexts level => ⟨.error (.error same), contexts, level⟩
    case deferred =>
      exact fun same contexts level => ⟨.error (.error same.rootCause), contexts, level⟩

theorem overlooks_object {σ : Type} {rules : ObjectRules σ} {render : Value → String}
    {input : Input σ} {id : Reader}
    (finds : ∀ ⦃context context' value value'⦄, sight.Contexts context context' →
      sight.Values value value' → Outcomes sight.Errors (Option.Rel sight.Values)
        (rules.find input context value) (rules.find input context' value'))
    (renders : ∀ ⦃value value'⦄, sight.Values value value' → render value = render value')
    (impartial : rules.filter.Impartial sight input) (ofId : id.Overlooks sight) :
    (object rules render input id).Overlooks sight := by
  intro context context' cursor cursor' contexts level
  unfold object
  refine Alike.cases (ofId contexts level) ?value ?absent ?error ?deferred
  case value =>
    intro value value' _ _ _ _ _ _ same contexts' level
    dsimp only
    rw [renders same]
    refine (finds contexts same).elim (fun found => ?_)
      (fun same => ⟨.error (.error same), contexts', level⟩)
    refine rel_elim found ⟨.error (.refl _), contexts', level⟩ fun same => ?_
    dsimp only
    refine (impartial.judge rules.label.shown (render value') contexts same).elim (fun same => ?_)
      (fun same => ?_)
    · exact ⟨.ok (.some same), contexts', level⟩
    · exact ⟨.error (.error same), contexts', level⟩
  case absent => exact fun contexts level => ⟨.ok .none, contexts, level⟩
  case error => exact fun same contexts level => ⟨.error (.error same), contexts, level⟩
  case deferred =>
    exact fun same contexts level => ⟨.error (.error same.rootCause), contexts, level⟩

end Reading

namespace Argument

variable {σ : Type}

/-- What the application added to the argument makes no difference of what is alike. -/
def Impartial (sight : Sight) (input : Input σ) : Argument σ → Prop
  | .targeted _ lookup => ∀ ⦃context context'⦄, sight.Contexts context context' →
    Outcomes sight.Errors sight.Values (lookup input context) (lookup input context')
  | .mapped _ mapping => ∀ ⦃value value'⦄, sight.Values value value' →
    Outcomes sight.Errors sight.Values (mapping value) (mapping value')
  | .sequence _ _ compute _ => ∀ ⦃context context'⦄, sight.Contexts context context' →
    Outcomes sight.Errors sight.Values (compute context) (compute context')
  | .objectId rules _ => rules.filter.Impartial sight input
  | .objectById rules id _ =>
    rules.filter.Impartial sight input ∧
      (∀ ⦃value value'⦄, sight.Values value value' →
        id.source.render value = id.source.render value') ∧
      ∀ ⦃context context' value value'⦄, sight.Contexts context context' →
        sight.Values value value' → Outcomes sight.Errors (Option.Rel sight.Values)
          (rules.find input context value) (rules.find input context' value')
  | _ => True

theorem overlooks_readers {input : Input σ} {mode : Mode} {arguments : List (Argument σ)}
    (ofMembers : ∀ argument ∈ arguments, (argument.read input mode).Overlooks sight) :
    ∀ reader ∈ readers input mode arguments, reader.Overlooks sight := by
  rw [readers_eq_map]
  exact List.forall_mem_map.mpr ofMembers

theorem overlooks_read {input : Input σ} (mode : Mode) {argument : Argument σ}
    (impartial : argument.Everywhere (·.Impartial sight input)) :
    (argument.read input mode).Overlooks sight := by
  induction argument generalizing mode with
  | literal name word => exact Reading.overlooks_token ..
  | integer label kind =>
    exact fun _ _ _ _ contexts level => (Reading.overlooks_token _ _ contexts level).kept _ _
  | text label joinsRest =>
    exact fun _ _ _ _ contexts level => (Reading.overlooks_text _ _ contexts level).kept _ _
  | boolean label =>
    exact fun _ _ _ _ contexts level => (Reading.overlooks_token _ _ contexts level).kept _ _
  | recorder name accepted =>
    exact fun _ _ _ _ contexts level => (Reading.overlooks_token _ _ contexts level).kept _ _
  | fixed label value =>
    exact fun _ _ _ _ contexts level =>
      (Reading.alike_produced (.ok rfl) contexts level).kept _ _
  | fromInvoker label kind project =>
    intro context context' cursor cursor' contexts level
    rw [read]
    unfold Reading.fromInvoker
    refine (Reading.alike_produced ?_ contexts level).kept _ _
    split
    · exact .error rfl
    · exact .ok rfl
  | targeted label lookup =>
    exact fun _ _ _ _ contexts level =>
      (Reading.alike_produced (impartial.self contexts) contexts level).kept _ _
  | optional inner ih =>
    exact fun _ _ _ _ contexts level =>
      (ih mode impartial.optional contexts level).orAbsent _ level
  | named inner ih =>
    intro context context' cursor cursor' contexts level
    refine Reading.Alike.wrapped
      (Attempt.alike_stripped (fun _ => .refl _) ?_ ?_ ?_ contexts level) _
    · exact fun copies => ih mode impartial.named contexts copies
    · exact fun adjusted => (backtracks_read input mode inner context adjusted).forward
    · exact fun adjusted => (backtracks_read input mode inner context' adjusted).forward
  | mapped inner mapping ih =>
    exact fun _ _ _ _ contexts level =>
      ((ih .viewing impartial.mapped contexts level).mapped _ impartial.self).kept _ _
  | fallback primary producer ofPrimary _ =>
    exact fun _ _ _ _ contexts level =>
      (ofPrimary mode impartial.primary contexts level).postponed _
  | sequence label parts compute joinsFormats ofParts =>
    exact Reading.overlooks_sequence _ _
      (overlooks_readers fun part member => ofParts part member .storing (impartial.part _ member))
      impartial.self
  | firstOf label alternatives style ofAlternatives =>
    intro context context' cursor cursor' contexts level
    refine (Reading.alike_firstFrom ?_ _ _ (.empty sight) contexts level).kept _ _
    exact overlooks_readers fun alternative member =>
      ofAlternatives alternative member mode (impartial.alternative _ member)
  | objectId rules inner ih =>
    exact fun _ _ _ _ contexts level =>
      (Reading.overlooks_identifier impartial.self (ih .viewing impartial.identifier)
        (fun context cursor => (backtracks_read input .viewing inner context cursor).forward)
        contexts level).kept _ _
  | objectById rules id inner ih =>
    obtain ⟨filter, renders, finds⟩ := impartial.self
    have ofId := Reading.overlooks_identifier impartial.object.self
      (ih .viewing impartial.object.identifier)
      (fun context cursor => (backtracks_read input .viewing inner context cursor).forward)
    exact fun _ _ _ _ contexts level =>
      (Reading.overlooks_object finds renders filter ofId contexts level).kept _ _

/-- Whoever sees everything as it is takes nothing for alike that is not the same. -/
theorem impartial_full (input : Input σ) (argument : Argument σ) :
    argument.Impartial .full input := by
  cases argument with
  | targeted label lookup =>
    intro context context' contexts
    rw [contexts.eq]
    exact .refl .refl .refl _
  | mapped inner mapping =>
    intro value value' values
    rw [values.eq]
    exact .refl .refl .refl _
  | sequence label parts compute joinsFormats =>
    intro context context' contexts
    rw [contexts.eq]
    exact .refl .refl .refl _
  | objectId rules inner => exact Filter.impartial_full input rules.filter
  | objectById rules id inner =>
    refine ⟨Filter.impartial_full input rules.filter, fun value value' values => ?_,
      fun context context' value value' contexts values => ?_⟩
    · rw [values.eq]
    · rw [contexts.eq, values.eq]
      exact .refl .refl (rel_refl .refl) _
  | _ => trivial

end Argument

end CommandLine
