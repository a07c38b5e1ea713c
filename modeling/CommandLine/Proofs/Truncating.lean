import CommandLine.Argument.Build
import CommandLine.Proofs.Offering
import CommandLine.Proofs.Suggesting

/-! The limit of suggestions only cuts their list.

A run with a lower limit stops asking earlier, at every level of a tree. Up to
the lower limit it still finds what a run with a higher one does, in the same
order: what is cut off within an argument would have come too late anyway.
-/

set_option autoImplicit false

namespace CommandLine

variable {σ : Type}

namespace Completion

/-- Two lists have the same first `count` members, or are the same and have fewer. -/
def Alike (count : Nat) (first second : List String) : Prop :=
  first.take count = second.take count

namespace Alike

variable {count limit : Nat} {first second third first' second' : List String}

theorem refl (count : Nat) (list : List String) : Alike count list list :=
  rfl

theorem symm (h : Alike count first second) : Alike count second first :=
  Eq.symm h

theorem trans (h : Alike count first second) (h' : Alike count second third) :
    Alike count first third :=
  Eq.trans h h'

theorem append (h : Alike count first second) (h' : Alike count first' second') :
    Alike count (first ++ first') (second ++ second') := by
  have lengths : min count first.length = min count second.length := by
    simpa using congrArg List.length h
  unfold Alike at *
  rw [List.take_append, List.take_append, h]
  by_cases full : count ≤ first.length
  · -- Nothing of what is appended counts any more.
    have full' : count ≤ second.length := by omega
    rw [Nat.sub_eq_zero_of_le full, Nat.sub_eq_zero_of_le full', List.take_zero, List.take_zero]
  · have same : first.length = second.length := by omega
    have left : count - second.length ≤ count := Nat.sub_le ..
    rw [same, ← Nat.min_eq_left left, ← List.take_take, ← List.take_take, h']

theorem map (h : Alike count first second) (f : String → String) :
    Alike count (first.map f) (second.map f) := by
  unfold Alike at *
  rw [← List.map_take, ← List.map_take, h]

theorem append_of_full (full : count ≤ first.length) (more : List String) :
    Alike count (first ++ more) first :=
  List.take_append_of_le_length full

/-- Cutting at the limit or beyond it changes nothing up to it. -/
theorem take (fits : count ≤ limit) (list : List String) : Alike count (list.take limit) list := by
  unfold Alike
  rw [List.take_take, Nat.min_eq_left fits]

theorem extend (fits : count ≤ limit) (found more : List String) :
    Alike count (Completion.extend limit found more) (found ++ more) := by
  unfold Alike Completion.extend
  have within : count - found.length ≤ limit - found.length := Nat.sub_le_sub_right fits _
  rw [List.take_append, List.take_append, List.take_take, Nat.min_eq_left within]

end Alike

section

variable {count few many : Nat} (fewer : count ≤ few) (more : count ≤ many)
include fewer more

theorem Alike.extend_both {found found' offered offered' : List String}
    (h : Alike count found found') (h' : Alike count offered offered') :
    Alike count (Completion.extend few found offered) (Completion.extend many found' offered') :=
  (Alike.extend fewer _ _).trans ((h.append h').trans (Alike.extend more _ _).symm)

end

section

variable {limit count : Nat} (fits : count ≤ limit)
include fits

theorem alike_fallback (primary producer : Completer) (context : Context) (cursor : Cursor) :
    Alike count (fallback limit primary producer context cursor).suggestions
      ((primary context cursor).suggestions ++ (producer context cursor).suggestions) := by
  unfold fallback
  dsimp only
  split
  next full =>
    exact (Alike.take fits _).trans (Alike.append_of_full (Nat.le_trans fits full) _).symm
  next => exact Alike.extend fits _ _

/-- Leaving off once the limit is reached loses nothing that counts. -/
theorem alike_firstFrom (alternatives : List Completer) (context : Context) (start cursor : Cursor)
    (found : List String) :
    Alike count (firstFrom limit context start alternatives cursor found).suggestions
      (found ++ alternatives.flatMap fun alternative =>
        (alternative context start).suggestions) := by
  induction alternatives generalizing cursor found with
  | nil => simp [firstFrom, Alike]
  | cons alternative rest ih =>
    rw [List.flatMap_cons, ← List.append_assoc]
    have cut := Alike.extend fits found (alternative context start).suggestions
    unfold firstFrom
    dsimp only
    split
    next full =>
      have enough : count ≤ (found ++ (alternative context start).suggestions).length := by
        simp only [Completion.extend, List.length_append, List.length_take] at full ⊢
        omega
      exact cut.trans (Alike.append_of_full enough _).symm
    next => exact (ih _ _).trans (cut.append (.refl ..))

theorem alike_gather (offer : Value → Option String) (ids : List Value) :
    Alike count (gather count offer ids []) (gather limit offer ids []) := by
  rw [gather_nil, gather_nil]
  exact (Alike.take (Nat.le_refl _) _).trans (Alike.take fits _).symm

end

def AlwaysAlike (count : Nat) (first second : Completer) : Prop :=
  ∀ context cursor, Alike count (first context cursor).suggestions
    (second context cursor).suggestions

namespace AlwaysAlike

variable {count few many : Nat}

variable (fewer : count ≤ few) (more : count ≤ many)
include fewer more

theorem named {first second : Completer} (h : AlwaysAlike count first second) (lead : String) :
    AlwaysAlike count (named few lead first) (named many lead second) := by
  intro context cursor
  unfold Completion.named
  split
  next => exact .refl ..
  next =>
    dsimp only
    split
    next => exact .refl ..
    next adjusted _ =>
      exact Alike.extend_both fewer more (.refl ..) ((h context adjusted).map (lead ++ ·))

theorem fallback {first second first' second' : Completer} (h : AlwaysAlike count first second)
    (h' : AlwaysAlike count first' second') :
    AlwaysAlike count (fallback few first first') (fallback many second second') := by
  intro context cursor
  have both := (h context cursor).append (h' context cursor)
  exact (alike_fallback fewer ..).trans (both.trans (alike_fallback more ..).symm)

theorem firstOf {α : Type} {first second : α → Completer} {members : List α}
    (h : ∀ member ∈ members, AlwaysAlike count (first member) (second member)) :
    AlwaysAlike count (firstOf few (members.map first)) (firstOf many (members.map second)) := by
  intro context cursor
  have both : Alike count
      ((members.map first).flatMap fun completer => (completer context cursor).suggestions)
      ((members.map second).flatMap fun completer => (completer context cursor).suggestions) := by
    induction members with
    | nil => exact .refl ..
    | cons member rest ih =>
      obtain ⟨own, others⟩ := List.forall_mem_cons.mp h
      exact (own context cursor).append (ih others)
  exact (alike_firstFrom fewer _ context cursor cursor []).trans
    (both.trans (alike_firstFrom more _ context cursor cursor []).symm)

theorem sequence {α : Type} {read : α → Reader} {first second : α → Completer} {members : List α}
    (h : ∀ member ∈ members, AlwaysAlike count (first member) (second member)) :
    AlwaysAlike count (sequence few (members.map fun member => ⟨read member, first member⟩))
      (sequence many (members.map fun member => ⟨read member, second member⟩)) := by
  suffices both : ∀ context cursor found found', Alike count found found' →
      Alike count
        (inOrder few (members.map fun member => ⟨read member, first member⟩) context cursor
          found).suggestions
        (inOrder many (members.map fun member => ⟨read member, second member⟩) context cursor
          found').suggestions by
    exact fun context cursor => both context cursor [] [] (.refl ..)
  -- Both runs go the same way, for the parts are read alike.
  induction members with
  | nil => exact fun _ _ _ _ same => same
  | cons member rest ih =>
    intro context cursor found found' same
    obtain ⟨own, others⟩ := List.forall_mem_cons.mp h
    have onward := ih others
    rw [List.map_cons, List.map_cons]
    cases here : cursor.hasNext with
    | false => rwa [suggestions_inOrder_of_done here, suggestions_inOrder_of_done here]
    | true =>
      generalize made : read member context cursor = reading
      have asked : Alike count
          (extend few found (first member reading.context cursor).suggestions)
          (extend many found' (second member reading.context cursor).suggestions) :=
        Alike.extend_both fewer more same (own reading.context cursor)
      by_cases idle : reading.cursor.remainingCount = cursor.remainingCount
      · cases came : reading.outcome.isOk with
        | true =>
          rw [suggestions_inOrder_of_idle here made came idle,
            suggestions_inOrder_of_idle here made came idle]
          exact onward _ _ _ _ asked
        | false =>
          rw [suggestions_inOrder_of_hidden here made came idle,
            suggestions_inOrder_of_hidden here made came idle]
          exact onward _ _ _ _ same
      · by_cases left : reading.outcome.isOk = true ∧ reading.cursor.hasNext = true
        · rw [suggestions_inOrder_of_passed here made left.1 idle left.2,
            suggestions_inOrder_of_passed here made left.1 idle left.2]
          exact onward _ _ _ _ same
        · have last (came : reading.outcome.isOk = true) : reading.cursor.hasNext = false := by
            simpa [came] using left
          rw [suggestions_inOrder_of_last here made last idle,
            suggestions_inOrder_of_last here made last idle]
          exact asked

end AlwaysAlike

end Completion

def Input.CapFree {α : Type} (f : Input σ → α) : Prop :=
  ∀ invoker cap cap', f ⟨invoker, cap⟩ = f ⟨invoker, cap'⟩

namespace Argument

/-- What the argument itself looks up, filters or takes from a source is the same for every limit
of suggestions. -/
def IgnoresCap : Argument σ → Prop
  | .targeted _ lookup => Input.CapFree lookup
  | .objectId rules _ =>
    Input.CapFree rules.source.pinned ∧ Input.CapFree rules.source.suggestions ∧
      Input.CapFree rules.filter.accepts
  | .objectById rules _ _ => Input.CapFree rules.find ∧ Input.CapFree rules.filter.accepts
  | _ => True

end Argument

section

variable {invoker : σ}

theorem Filter.judge_eq {filter : Filter σ} (free : Input.CapFree filter.accepts)
    (cap cap' : Nat) : filter.judge ⟨invoker, cap⟩ = filter.judge ⟨invoker, cap'⟩ := by
  unfold judge
  rw [free invoker cap cap']

theorem Reading.identifier_eq {rules : IdRules σ} (free : Input.CapFree rules.filter.accepts)
    (cap cap' : Nat) : identifier rules ⟨invoker, cap⟩ = identifier rules ⟨invoker, cap'⟩ := by
  unfold identifier
  rw [Filter.judge_eq free cap cap']

theorem Reading.object_eq {rules : ObjectRules σ} (ofFind : Input.CapFree rules.find)
    (ofFilter : Input.CapFree rules.filter.accepts) (render : Value → String) (cap cap' : Nat) :
    object rules render ⟨invoker, cap⟩ = object rules render ⟨invoker, cap'⟩ := by
  unfold object
  rw [ofFind invoker cap cap', Filter.judge_eq ofFilter cap cap']

theorem Completion.candidates_eq {rules : IdRules σ} (ofPinned : Input.CapFree rules.source.pinned)
    (ofSuggestions : Input.CapFree rules.source.suggestions) (cap cap' : Nat) :
    candidates rules ⟨invoker, cap⟩ = candidates rules ⟨invoker, cap'⟩ := by
  unfold candidates
  rw [ofPinned invoker cap cap', ofSuggestions invoker cap cap']

theorem Completion.offer?_eq {rules : IdRules σ} (free : Input.CapFree rules.filter.accepts)
    (cap cap' : Nat) : offer? rules ⟨invoker, cap⟩ = offer? rules ⟨invoker, cap'⟩ := by
  unfold offer?
  rw [free invoker cap cap']

theorem Completion.alwaysAlike_identifier {rules : IdRules σ}
    (ofPinned : Input.CapFree rules.source.pinned)
    (ofSuggestions : Input.CapFree rules.source.suggestions)
    (ofFilter : Input.CapFree rules.filter.accepts) {few many : Nat} (fewer : few ≤ many)
    (inner : Reader) :
    AlwaysAlike few (identifier rules ⟨invoker, few⟩ inner)
      (identifier rules ⟨invoker, many⟩ inner) := by
  intro context cursor
  unfold identifier
  rw [candidates_eq ofPinned ofSuggestions few many, offer?_eq ofFilter few many]
  split
  · exact .refl ..
  · dsimp only
    split
    · exact .refl ..
    · exact alike_gather fewer _ _

namespace Argument

theorem read_eq {argument : Argument σ} (free : argument.Everywhere IgnoresCap) (mode : Mode)
    (cap cap' : Nat) : argument.read ⟨invoker, cap⟩ mode = argument.read ⟨invoker, cap'⟩ mode := by
  -- Reading shows no suggestions, so that their limit does not matter to it.
  induction argument generalizing mode with
  | targeted label lookup =>
    simp only [read]
    rw [free.self invoker cap cap']
  | optional inner ih =>
    simp only [read]
    rw [ih free.optional mode]
  | named inner ih =>
    simp only [read]
    rw [ih free.named mode]
  | mapped inner mapping ih =>
    simp only [read]
    rw [ih free.mapped .viewing]
  | fallback primary producer ofPrimary _ =>
    simp only [read]
    rw [ofPrimary free.primary mode]
  | sequence label parts compute joinsFormats ofParts =>
    simp only [read, readers_eq_map]
    rw [List.map_congr_left fun part member => ofParts part member (free.part part member) .storing]
  | firstOf label alternatives style ofAlternatives =>
    simp only [read, readers_eq_map]
    rw [List.map_congr_left fun alternative member =>
      ofAlternatives alternative member (free.alternative alternative member) mode]
  | objectId rules inner ih =>
    simp only [read]
    rw [ih free.identifier .viewing, Reading.identifier_eq free.self.2.2 cap cap']
  | objectById rules id inner ih =>
    simp only [read]
    rw [ih free.object.identifier .viewing,
      Reading.identifier_eq free.object.self.2.2 cap cap',
      Reading.object_eq free.self.1 free.self.2 id.source.render cap cap']
  | _ => rfl

theorem alwaysAlike_complete {argument : Argument σ} (free : argument.Everywhere IgnoresCap)
    {few many : Nat} (fewer : few ≤ many) :
    Completion.AlwaysAlike few (argument.complete ⟨invoker, few⟩)
      (argument.complete ⟨invoker, many⟩) := by
  -- With a lower limit, the suggestions start in the same way.
  induction argument with
  | optional inner ih => exact ih free.optional
  | mapped inner mapping ih => exact ih free.mapped
  | named inner ih => exact .named (Nat.le_refl _) fewer (ih free.named) _
  | fallback primary producer ofPrimary ofProducer =>
    exact .fallback (Nat.le_refl _) fewer (ofPrimary free.primary) (ofProducer free.producer)
  | sequence label parts compute joinsFormats ofParts =>
    simp only [complete, completionParts_eq_map]
    rw [List.map_congr_left fun part member => congrArg (Completion.Part.mk · _)
      (read_eq (free.part part member) .storing few many)]
    exact .sequence (Nat.le_refl _) fewer fun part member =>
      ofParts part member (free.part part member)
  | firstOf label alternatives style ofAlternatives =>
    simp only [complete, completers_eq_map]
    exact .firstOf (Nat.le_refl _) fewer fun alternative member =>
      ofAlternatives alternative member (free.alternative alternative member)
  | objectId rules inner =>
    simp only [complete]
    rw [read_eq free.identifier .viewing few many]
    obtain ⟨ofPinned, ofSuggestions, ofFilter⟩ := free.self
    exact Completion.alwaysAlike_identifier ofPinned ofSuggestions ofFilter fewer _
  | objectById rules id inner =>
    simp only [complete]
    rw [read_eq free.object.identifier .viewing few many]
    obtain ⟨ofPinned, ofSuggestions, ofFilter⟩ := free.object.self
    exact Completion.alwaysAlike_identifier ofPinned ofSuggestions ofFilter fewer _
  | _ => exact fun _ _ => .refl ..

/-- Of a list of arguments the same ones are asked, as far as their suggestions still count. -/
theorem alike_suggestFrom {arguments : List (Argument σ)}
    (free : ∀ argument ∈ arguments, argument.Everywhere IgnoresCap) {few many : Nat}
    (fewer : few ≤ many) (context : Context) (cursor : Cursor) {found found' : List String}
    (same : Completion.Alike few found found') :
    Completion.Alike few
      (suggestFrom ⟨invoker, few⟩ arguments context cursor found).suggestions
      (suggestFrom ⟨invoker, many⟩ arguments context cursor found').suggestions := by
  induction arguments generalizing context cursor found found' with
  | nil => exact same
  | cons argument rest ih =>
    obtain ⟨own, others⟩ := List.forall_mem_cons.mp free
    cases here : cursor.hasNext with
    | false =>
      rwa [suggestions_suggestFrom_of_done here, suggestions_suggestFrom_of_done here]
    | true =>
      generalize made : argument.read ⟨invoker, many⟩ .storing context cursor = reading
      have made' : argument.read ⟨invoker, few⟩ .storing context cursor = reading := by
        rw [read_eq own .storing few many, made]
      have asked : Completion.Alike few
          (Completion.extend few found
            (argument.complete ⟨invoker, few⟩ reading.context cursor).suggestions)
          (Completion.extend many found'
            (argument.complete ⟨invoker, many⟩ reading.context cursor).suggestions) :=
        .extend_both (Nat.le_refl _) fewer same (alwaysAlike_complete own fewer _ _)
      cases stops : argument.stops? cursor reading with
      | none =>
        rw [suggestions_suggestFrom_of_passed here made stops,
          suggestions_suggestFrom_of_passed here made' stops]
        exact ih others _ _ same
      | some stop =>
        cases stop with
        | false =>
          rw [suggestions_suggestFrom_of_asked here made stops,
            suggestions_suggestFrom_of_asked here made' stops]
          exact ih others _ _ asked
        | true =>
          rw [suggestions_suggestFrom_of_stops here made stops,
            suggestions_suggestFrom_of_stops here made' stops]
          exact asked

end Argument

end

theorem Argument.length_suggestFrom_le (input : Input σ) (arguments : List (Argument σ))
    (context : Context) (cursor : Cursor) {found : List String}
    (fits : found.length ≤ input.maxSuggestions) :
    (suggestFrom input arguments context cursor found).suggestions.length ≤
      input.maxSuggestions := by
  induction arguments generalizing context cursor found with
  | nil => exact fits
  | cons argument rest ih =>
    unfold suggestFrom
    dsimp only
    split
    · exact fits
    · split
      · exact ih _ _ fits
      · split
        · exact Completion.length_extend_le fits _
        · exact ih _ _ (Completion.length_extend_le fits _)

namespace Command

/-- A lower limit of suggestions cuts the list that a higher one gives, and nothing else. -/
theorem complete_truncates (command : Command σ)
    (free : ∀ argument ∈ command.arguments, argument.Everywhere Argument.IgnoresCap) (invoker : σ)
    (cursor : Cursor) {few many : Nat} (fewer : few ≤ many) :
    let short := (command.complete ⟨invoker, few⟩ cursor).suggestions
    let long := (command.complete ⟨invoker, many⟩ cursor).suggestions
    short = long.take (min few long.length) ∧ short.length ≤ few := by
  intro short long
  have bound : short.length ≤ few :=
    Argument.length_suggestFrom_le ⟨invoker, few⟩ _ _ _ (Nat.zero_le _)
  have alike : short.take few = long.take few :=
    Argument.alike_suggestFrom free fewer .empty cursor (.refl ..)
  refine ⟨?_, bound⟩
  rw [List.take_of_length_le bound] at alike
  rw [alike, ← List.take_eq_take_min]

def names : IdSource Unit where
  render := Value.shown
  suggestions _ _ typed :=
    [.text "tom", .text "ann", .text "tina"].filter (Text.startsWith ·.shown typed)
  pinned _ _ _ := []

def greet : Command Unit where
  arguments :=
    [.orDefault (.boolean ⟨"twice", none⟩) (.boolean false),
      .firstOf ⟨"whom", none⟩
        [.literal "all" "all",
          .objectId ⟨⟨"name", none⟩, names, .any, 0⟩ (.text ⟨"name", none⟩ false)]
        .listed]
  distinct := by decide

theorem complete_greet_truncates :
    (∀ argument ∈ greet.arguments, argument.Everywhere Argument.IgnoresCap) ∧
      (greet.complete ⟨(), 20⟩ (.ofList ["t"])).suggestions = ["true", "tom", "tina"] ∧
      (greet.complete ⟨(), 2⟩ (.ofList ["t"])).suggestions = ["true", "tom"] := by
  have free : ∀ argument ∈ greet.arguments, argument.Everywhere Argument.IgnoresCap := by
    simp [greet, Argument.orDefault, Argument.Everywhere, Argument.nodes, Argument.nodesOfAll,
      Argument.IgnoresCap, Input.CapFree, names, Filter.any]
  have long : (greet.complete ⟨(), 20⟩ (.ofList ["t"])).suggestions = ["true", "tom", "tina"] := by
    decide +kernel
  obtain ⟨short, -⟩ := complete_truncates greet free () (.ofList ["t"]) (show 2 ≤ 20 by decide)
  rw [long] at short
  exact ⟨free, long, short⟩

end Command

end CommandLine
