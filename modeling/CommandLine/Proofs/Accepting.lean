import CommandLine.Proofs.Chaining
import CommandLine.Proofs.Extending
import CommandLine.Proofs.TieBreak

/-! Suggestions that can be typed as they are.

What is suggested for the only token is read when it is put in the place of that
token. This is so for words, numbers and texts however they are wrapped, as long
as no mapping refuses a value. Only the lead of a named argument is suggested
before anything that could be read stands behind it.
-/

set_option autoImplicit false

namespace CommandLine

theorem Text.sameIgnoringCase_refl (text : String) : sameIgnoringCase text text = true :=
  beq_self_eq_true _

theorem Text.afterLead?_append (lead rest : String) :
    afterLead? lead (lead ++ rest) = some rest := by
  have starts : startsWith (lead ++ rest) lead = true := by
    rw [startsWith, String.toList_append, List.isPrefixOf_iff_prefix]
    exact List.prefix_append _ _
  rw [afterLead?, if_pos starts, String.toList_append, List.drop_left, String.ofList_toList]

namespace Cursor

variable {cursor rest : Cursor} {token : String} {others : List String}

theorem next?_of_remaining (stands : cursor.remaining = token :: others) :
    ∃ behind, cursor.next? = some (token, behind) := by
  cases next : cursor.next? with
  | none =>
    rw [next?_eq_none_iff, peek_eq_head?_remaining, stands] at next
    cases next
  | some found =>
    obtain ⟨first, behind⟩ := found
    obtain ⟨rfl, -⟩ := List.cons.inj ((remaining_of_next? next).symm.trans stands)
    exact ⟨behind, rfl⟩

theorem lt_of_next? (next : cursor.next? = some (token, rest)) :
    cursor.position < rest.position := by
  unfold next? at next
  split at next
  next =>
    cases next
    exact Nat.lt_succ_self _
  next => cases next

theorem stripNext?_append {lead text : String}
    (stands : cursor.remaining = (lead ++ text) :: others) :
    ∃ adjusted, cursor.stripNext? lead = some adjusted ∧ adjusted.remaining = text :: others := by
  have next : cursor.peek = some (lead ++ text) := by
    rw [peek_eq_head?_remaining, stands, List.head?_cons]
  cases strip : cursor.stripNext? lead with
  | none =>
    have kept := (stripNext?_eq_none_iff cursor lead).mp strip _ next
    cases kept.symm.trans (Text.afterLead?_append lead text)
  | some adjusted =>
    obtain ⟨token, rest, tokens, ahead, after, remaining⟩ := exists_of_stripNext? strip
    obtain ⟨rfl, rfl⟩ := List.cons.inj (ahead.symm.trans stands)
    cases after.symm.trans (Text.afterLead?_append lead text)
    exact ⟨adjusted, rfl, remaining⟩

end Cursor

namespace Completion

variable {context : Context} {cursor : Cursor} {suggestion : String}

theorem mem_of_mem_fallback_nothing {limit : Nat} {primary : Completer}
    (offered : suggestion ∈ (fallback limit primary nothing context cursor).suggestions) :
    suggestion ∈ (primary context cursor).suggestions := by
  rcases mem_of_mem_fallback offered with own | none
  · exact own
  · cases none

end Completion

namespace Reading

/-- The wrapper has a value exactly if the reading has, and then ends where that does. -/
structure Passes (reading wrapper : Reading) : Prop where
  value : wrapper.value?.isSome = reading.value?.isSome
  cursor : wrapper.value?.isSome = true → wrapper.cursor = reading.cursor

variable (reading : Reading)

theorem passes_kept (mode : Mode) (name : String) : reading.Passes (reading.kept mode name) :=
  ⟨by rw [Attempt.value?, outcome_kept, ← Attempt.value?], fun _ => cursor_kept ..⟩

theorem passes_orAbsent (name : String) (start : Cursor) :
    reading.Passes (reading.orAbsent name start) := by
  refine ⟨by rw [value?_orAbsent], ?_⟩
  unfold orAbsent
  split
  · exact fun _ => rfl
  · exact fun _ => rfl
  · exact nofun

theorem passes_postponed (name : String) : reading.Passes (reading.postponed name) := by
  refine ⟨by rw [value?_postponed], fun _ => ?_⟩
  unfold postponed
  split <;> rfl

theorem passes_wrapped (name : String) : reading.Passes (reading.wrapped name) := by
  unfold wrapped
  split
  next signal sent => exact ⟨by simp [Attempt.value?, sent], fun _ => rfl⟩
  next => exact ⟨rfl, fun _ => rfl⟩

theorem passes_mapped (name : String) {mapping : Value → Except ArgumentError Value}
    (total : ∀ value, ∃ image, mapping value = .ok image) :
    reading.Passes (reading.mapped name mapping) := by
  unfold mapped
  split
  next => exact ⟨rfl, fun _ => rfl⟩
  next value came =>
    obtain ⟨image, made⟩ := total value
    rw [made]
    exact ⟨by simp [Attempt.value?, came], fun _ => rfl⟩
  next => exact ⟨rfl, fun _ => rfl⟩
  next signal sent => exact ⟨by simp [Attempt.value?, sent], fun _ => rfl⟩

end Reading

def Reader.Spends (reader : Reader) : Prop :=
  ∀ context (cursor : Cursor), (reader context cursor).value?.isSome = true →
    cursor.position < (reader context cursor).cursor.position

def Reader.Reads (reader : Reader) (context : Context) (text : String) : Prop :=
  ∀ cursor : Cursor, ∀ others, cursor.remaining = text :: others →
    (reader context cursor).value?.isSome = true

namespace Reader

open Reading

variable {reader wrapper : Reader}

theorem Spends.passes (h : reader.Spends)
    (passes : ∀ context cursor, (reader context cursor).Passes (wrapper context cursor)) :
    wrapper.Spends := by
  intro context cursor value
  rw [(passes context cursor).cursor value]
  exact h context cursor ((passes context cursor).value ▸ value)

theorem Reads.passes {context : Context} {text : String} (h : reader.Reads context text)
    (passes : ∀ context cursor, (reader context cursor).Passes (wrapper context cursor)) :
    wrapper.Reads context text := by
  intro cursor others stands
  rw [(passes context cursor).value]
  exact h cursor others stands

theorem spends_token (display : String) (accept : String → Except Failure Value) :
    Reader.Spends (token display accept) := by
  intro context cursor value
  unfold token at value ⊢
  split at value
  next => cases value
  next word rest next =>
    split at value
    next => cases value
    next => exact Cursor.lt_of_next? next

theorem reads_token (display : String) {accept : String → Except Failure Value} {word : String}
    {value : Value} (accepted : accept word = .ok value) (context : Context) :
    Reader.Reads (token display accept) context word := by
  intro cursor others stands
  obtain ⟨behind, next⟩ := Cursor.next?_of_remaining stands
  simp [token, next, accepted, Attempt.ok, Attempt.value?]

theorem spends_text (display : String) (joinsRest : Bool) :
    Reader.Spends (text display joinsRest) := by
  unfold text
  split
  · intro context cursor value
    dsimp only at value ⊢
    split at value
    next left =>
      rw [if_pos left]
      exact of_decide_eq_true left
    next => cases value
  · exact spends_token display _

theorem spends_stripped (display lead : String) (refuse : ArgumentError → Failure)
    (h : reader.Spends) :
    Reader.Spends fun context => Attempt.stripped display lead refuse (reader context) context := by
  intro context cursor value
  dsimp only at value ⊢
  rcases Attempt.stripped_cases display lead refuse (reader context) context cursor with
    ⟨-, cause, eq⟩ | ⟨adjusted, strip, ⟨failure, came, eq⟩ | ⟨_, -, eq⟩⟩
  · rw [eq] at value
    cases value
  · rw [eq, Attempt.value?, came] at value
    cases value
  · rw [eq] at value ⊢
    obtain ⟨position, -⟩ := Cursor.position_of_stripNext? strip
    obtain ⟨token, rest, others, ahead, -⟩ := Cursor.exists_of_stripNext? strip
    have spent := h context adjusted value
    have left : cursor.hasNext = true := by
      rw [cursor.hasNext_iff, ahead]
      exact List.cons_ne_nil _ _
    exact Nat.lt_min.mpr ⟨position ▸ spent, of_decide_eq_true left⟩

theorem reads_stripped (display lead : String) (refuse : ArgumentError → Failure)
    {context : Context} {text : String} (h : reader.Reads context text) :
    Reader.Reads (fun context => Attempt.stripped display lead refuse (reader context) context)
      context (lead ++ text) := by
  intro cursor others stands
  obtain ⟨adjusted, strip, remaining⟩ := Cursor.stripNext?_append stands
  have value := h adjusted others remaining
  dsimp only
  rcases Attempt.stripped_cases display lead refuse (reader context) context cursor with
    ⟨refused, -⟩ | ⟨copy, strip', ⟨failure, came, -⟩ | ⟨_, -, eq⟩⟩
  · cases refused.symm.trans strip
  · cases strip.symm.trans strip'
    rw [Attempt.value?, came] at value
    cases value
  · cases strip.symm.trans strip'
    rw [eq]
    exact value

end Reader

namespace Argument

variable {σ : Type}

/-- Made of words, numbers and texts with mappings that refuse no value; only if it is `nameable`
are there named arguments, and none inside another. -/
inductive Plain : (nameable : Bool) → Argument σ → Prop where
  | literal {nameable : Bool} (name word : String) : Plain nameable (.literal name word)
  | integer {nameable : Bool} (label : Label) (kind : IntegerKind) :
    Plain nameable (.integer label kind)
  | text {nameable : Bool} (label : Label) (joinsRest : Bool) :
    Plain nameable (.text label joinsRest)
  | boolean {nameable : Bool} (label : Label) : Plain nameable (.boolean label)
  | optional {nameable : Bool} {inner : Argument σ} (plain : Plain nameable inner) :
    Plain nameable (.optional inner)
  | mapped {nameable : Bool} {inner : Argument σ} {mapping : Value → Except ArgumentError Value}
    (plain : Plain nameable inner) (total : ∀ value, ∃ image, mapping value = .ok image) :
    Plain nameable (.mapped inner mapping)
  | named {inner : Argument σ} (plain : Plain false inner) : Plain true (.named inner)
  | supplied {nameable : Bool} {primary : Argument σ} (plain : Plain nameable primary)
    (supply : Supply σ) : Plain nameable (primary.orSupply supply)
  | firstOf {nameable : Bool} {alternatives : List (Argument σ)} (label : Label)
    (style : AlternationStyle)
    (plain : ∀ alternative ∈ alternatives, Plain nameable alternative) :
    Plain nameable (.firstOf label alternatives style)

/-- A named argument of the tree offers its bare lead, which `typed` is only the start of. -/
def OffersLead (argument : Argument σ) (typed lead : String) : Prop :=
  Text.startsWith lead typed = true ∧ typed ≠ lead ∧
    ∃ inner, .named inner ∈ argument.nodes ∧ inner.info.lead = lead

theorem OffersLead.mono {argument other : Argument σ} {typed lead : String}
    (h : argument.OffersLead typed lead) (below : argument.nodes ⊆ other.nodes) :
    other.OffersLead typed lead := by
  obtain ⟨starts, short, inner, inside, same⟩ := h
  exact ⟨starts, short, inner, below inside, same⟩

theorem read_orSupply (primary : Argument σ) (supply : Supply σ) (input : Input σ) (mode : Mode)
    (context : Context) (cursor : Cursor) :
    (primary.orSupply supply).read input mode context cursor =
      (primary.read input mode context cursor).postponed primary.name := by
  cases supply <;> rfl

theorem complete_orSupply (primary : Argument σ) (supply : Supply σ) (input : Input σ) :
    (primary.orSupply supply).complete input =
      Completion.fallback input.maxSuggestions (primary.complete input) Completion.nothing := by
  cases supply <;> rfl

theorem nodes_subset_orSupply (primary : Argument σ) (supply : Supply σ) :
    primary.nodes ⊆ (primary.orSupply supply).nodes := by
  obtain ⟨producer, same, -⟩ := primary.orSupply_eq_fallback supply
  rw [same]
  exact fun node inside => List.mem_cons_of_mem _ (List.mem_append_left _ inside)

section

variable {input : Input σ} {label : Label} {alternatives : List (Argument σ)}
  {style : AlternationStyle} {mode : Mode} {context : Context} {cursor : Cursor}

theorem exists_of_value_firstOf
    (value : ((firstOf label alternatives style).read input mode context cursor).value?.isSome =
      true) :
    ∃ alternative ∈ alternatives,
      (alternative.read input mode context cursor).value?.isSome = true ∧
        ((firstOf label alternatives style).read input mode context cursor).cursor =
          (alternative.read input mode context cursor).cursor := by
  have nonempty : alternatives ≠ [] := by
    rintro rfl
    cases mode <;> cases value
  have told := tieBreak_read input mode label style nonempty context cursor
  obtain ⟨chosen, found⟩ := Option.isSome_iff_exists.mp (told.isSome_find?.trans value)
  obtain ⟨alternative, member, rfl⟩ := List.mem_map.mp (List.mem_of_find?_eq_some found)
  have own := List.find?_some found
  exact ⟨alternative, member, own, (told.value _ found).2.2⟩

theorem value_firstOf {alternative : Argument σ} (member : alternative ∈ alternatives)
    (value : (alternative.read input mode context cursor).value?.isSome = true) :
    ((firstOf label alternatives style).read input mode context cursor).value?.isSome = true := by
  have told := tieBreak_read input mode label style (List.ne_nil_of_mem member) context cursor
  rw [← told.isSome_find?, List.find?_isSome]
  exact ⟨_, List.mem_map_of_mem member, value⟩

end

section

variable {input : Input σ} {nameable : Bool} {argument : Argument σ}

theorem spends_read (plain : argument.Plain nameable) (mode : Mode) :
    Reader.Spends (argument.read input mode) := by
  induction plain generalizing mode with
  | literal name word => exact Reader.spends_token _ _
  | integer label kind => exact (Reader.spends_token _ _).passes fun _ _ => Reading.passes_kept ..
  | text label joinsRest => exact (Reader.spends_text _ _).passes fun _ _ => Reading.passes_kept ..
  | boolean label => exact (Reader.spends_token _ _).passes fun _ _ => Reading.passes_kept ..
  | optional _ ih => exact (ih mode).passes fun _ _ => Reading.passes_orAbsent ..
  | mapped _ total ih =>
    refine ((ih .viewing).passes fun _ _ => ?_).passes fun _ _ => Reading.passes_kept ..
    exact Reading.passes_mapped _ _ total
  | named _ ih =>
    exact (Reader.spends_stripped _ _ _ (ih mode)).passes fun _ _ => Reading.passes_wrapped ..
  | supplied _ supply ih =>
    refine (ih mode).passes fun context cursor => ?_
    rw [read_orSupply]
    exact Reading.passes_postponed ..
  | firstOf label style _ ih =>
    intro context cursor value
    obtain ⟨alternative, member, own, same⟩ := exists_of_value_firstOf value
    rw [same]
    exact ih alternative member mode context cursor own

theorem reads_of_suggested (plain : argument.Plain nameable) {context : Context} {cursor : Cursor}
    {typed suggestion : String} (only : cursor.remaining = [typed])
    (offered : suggestion ∈ (argument.complete input context cursor).suggestions)
    (whole : nameable = true → ¬argument.OffersLead typed suggestion) (mode : Mode) :
    Reader.Reads (argument.read input mode) context suggestion := by
  -- What is suggested for the only token is read wherever it comes next.
  induction plain generalizing cursor typed suggestion mode with
  | literal name word =>
    obtain rfl := List.mem_singleton.mp (Completion.mem_of_mem_words offered)
    exact Reader.reads_token _ (if_pos (Text.sameIgnoringCase_refl _)) context
  | integer => cases offered
  | text => cases offered
  | boolean label =>
    refine Reader.Reads.passes ?_ fun _ _ => Reading.passes_kept ..
    rcases List.mem_pair.mp (Completion.mem_of_mem_words offered) with rfl | rfl
    · exact Reader.reads_token _ (if_pos (by decide)) context
    · exact Reader.reads_token _ ((if_neg (by decide)).trans (if_pos (by decide))) context
  | optional _ ih =>
    have reads := ih only offered
      (fun names offers => whole names (offers.mono (List.subset_cons_self ..))) mode
    exact reads.passes fun _ _ => Reading.passes_orAbsent ..
  | mapped _ total ih =>
    have reads := ih only offered
      (fun names offers => whole names (offers.mono (List.subset_cons_self ..))) .viewing
    exact (reads.passes fun _ _ => Reading.passes_mapped _ _ total).passes fun _ _ =>
      Reading.passes_kept ..
  | @named inner _ ih =>
    obtain ⟨token, others, remaining, offer⟩ := Completion.offer_of_mem_named offered
    obtain ⟨rfl, rfl⟩ := List.cons.inj (remaining.symm.trans only)
    cases offer with
    | lead starts short =>
      exact absurd ⟨starts, short, inner, self_mem_nodes _, rfl⟩ (whole rfl)
    | inner _ _ stands inside =>
      -- Nothing named stands below, so the inner argument has no lead to offer.
      exact (Reader.reads_stripped _ _ _ (ih stands inside nofun mode)).passes fun _ _ =>
        Reading.passes_wrapped ..
  | supplied _ supply ih =>
    rw [complete_orSupply] at offered
    have own := Completion.mem_of_mem_fallback_nothing offered
    have reads := ih only own
      (fun names offers => whole names (offers.mono (nodes_subset_orSupply ..))) mode
    refine reads.passes fun context cursor => ?_
    rw [read_orSupply]
    exact Reading.passes_postponed ..
  | firstOf label style _ ih =>
    rcases Completion.mem_suggestions_firstFrom offered with none | ⟨completer, inside, own⟩
    · cases none
    · rw [completers_eq_map] at inside
      obtain ⟨alternative, member, rfl⟩ := List.mem_map.mp inside
      have below : alternative.nodes ⊆ (Argument.firstOf label _ style).nodes := fun node there =>
        List.mem_cons_of_mem _ (mem_nodesOfAll.mpr ⟨alternative, member, there⟩)
      have reads := ih alternative member only own
        (fun names offers => whole names (offers.mono below)) mode
      exact fun cursor others stands => value_firstOf member (reads cursor others stands)

/-- Whatever is suggested for a single token, other than the bare lead of a named argument, has a
value in the place of that token and takes all of it. -/
theorem suggestions_are_read (input : Input σ) {argument : Argument σ} (plain : argument.Plain true)
    (mode : Mode) (context : Context) {typed suggestion : String}
    (offered : suggestion ∈ (argument.complete input context (.ofList [typed])).suggestions)
    (whole : ¬argument.OffersLead typed suggestion) :
    let reading := argument.read input mode context (.ofList [suggestion])
    (∃ value, reading.outcome = .ok (some value)) ∧ reading.cursor.remaining = [] := by
  intro reading
  have value : reading.value?.isSome = true :=
    reads_of_suggested plain rfl offered (fun _ => whole) mode (.ofList [suggestion]) [] rfl
  have spent := spends_read plain mode context (.ofList [suggestion]) value
  have forward := (backtracks_read input mode argument context (.ofList [suggestion])).forward
  obtain ⟨came, holds⟩ := Option.isSome_iff_exists.mp value
  refine ⟨⟨came, Attempt.value?_eq_some.mp holds⟩, ?_⟩
  -- A value costs a token, and there is only one.
  rw [Cursor.remaining, forward.tokens]
  exact List.drop_eq_nil_of_le spent

end

def lamp : Argument Unit :=
  .firstOf ⟨"lamp", none⟩
    [.optional (.literal "dim" "Dim"),
      .orDefault (.named (.boolean ⟨"lit", none⟩)) (.boolean true)] .listed

theorem plain_lamp : lamp.Plain true := by
  refine .firstOf _ _ (List.forall_mem_cons.mpr ⟨.optional (.literal ..), ?_⟩)
  exact List.forall_mem_singleton.mpr (.supplied (.named (.boolean _)) (.default _))

/-- A value is suggested behind the lead whatever the case of its start, and the lead itself only
while it is being typed. -/
theorem suggestions_are_read_lamp :
    lamp.Plain true ∧
      (lamp.complete ⟨(), 20⟩ .empty (.ofList ["li"])).suggestions =
        ["lit=", "lit=true", "lit=false"] ∧
      lamp.OffersLead "li" "lit=" ∧
      (lamp.complete ⟨(), 20⟩ .empty (.ofList ["lit=T"])).suggestions = ["lit=true"] ∧
      ¬lamp.OffersLead "lit=T" "lit=true" ∧
      let reading := lamp.read ⟨(), 20⟩ .viewing .empty (.ofList ["lit=true"])
      (∃ value, reading.outcome = .ok (some value)) ∧ reading.cursor.remaining = [] := by
  have offers : (lamp.complete ⟨(), 20⟩ .empty (.ofList ["lit=T"])).suggestions = ["lit=true"] := by
    decide +kernel
  have offersLead : lamp.OffersLead "li" "lit=" := by
    refine ⟨by decide +kernel, by decide, .boolean ⟨"lit", none⟩, ?_, by decide +kernel⟩
    simp [lamp, orDefault, nodes, nodesOfAll]
  have whole : ¬lamp.OffersLead "lit=T" "lit=true" := by
    rintro ⟨starts, -⟩
    revert starts
    decide +kernel
  refine ⟨plain_lamp, by decide +kernel, offersLead, offers, whole, ?_⟩
  exact suggestions_are_read ⟨(), 20⟩ plain_lamp .viewing .empty
    (offers ▸ List.mem_singleton_self _) whole

end Argument

end CommandLine
