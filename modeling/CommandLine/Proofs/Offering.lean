import CommandLine.Argument.Complete
import CommandLine.Proofs.Tokenizing

/-! Which identifiers are offered.

Looking for suggestions, an identifier collects them one by one, checks the limit
before each and drops what it has already. What comes out is the start of a list
that does not depend on the limit: what there is to offer, each thing once.
-/

set_option autoImplicit false

namespace CommandLine

namespace Line

/-- What the last of `count` tokens shows of a text: all that is behind the pieces before it, and
the whole text if it has fewer pieces. -/
def lastOf (count : Nat) (text : String) : String :=
  let pieces := partialTokens text
  if count ≤ pieces.length then joined (pieces.drop (count - 1)) else text

theorem length_partialTokens_pos (text : String) : 0 < (partialTokens text).length :=
  List.length_pos_iff.mpr (partialTokens_ne_nil text)

theorem afterSeparators_eq (count : Nat) (cs : List Char) :
    afterSeparators count cs =
      if count < (cs.splitOn separator).length then
        some ([separator].intercalate ((cs.splitOn separator).drop count))
      else none := by
  fun_induction afterSeparators count cs with
  | case1 cs => simp [List.length_pos_iff, List.splitOn_ne_nil, List.intercalate_splitOn]
  | case2 count => simp
  | case3 count rest ih => simp [ih, List.splitOn_cons_eq_if_modifyHead]
  | case4 count c rest other ih => simp [ih, other, List.splitOn_cons_eq_if_modifyHead]

end Line

namespace Completion

theorem lastPart_eq (count : Nat) (rendered : String) :
    lastPart count rendered = Line.lastOf count rendered := by
  unfold lastPart Line.lastOf
  dsimp only
  have pieces := Line.length_partialTokens_pos rendered
  split
  next single =>
    -- Nothing is cut off for the only token.
    rw [if_pos (Nat.le_trans single pieces), Nat.sub_eq_zero_of_le single, List.drop_zero,
      Line.joined_partialTokens]
  next several =>
    have length : (rendered.toList.splitOn Line.separator).length =
        (Line.partialTokens rendered).length := by simp [Line.partialTokens]
    rw [Line.afterSeparators_eq, length]
    by_cases enough : count ≤ (Line.partialTokens rendered).length
    · rw [if_pos enough, if_pos (by omega)]
      simp [Line.joined, Line.partialTokens, Function.comp_def]
    · rw [if_neg enough, if_neg (by omega)]

theorem removeAll_append_singleton (offers found : List String) (suggestion : String) :
    offers.removeAll (found ++ [suggestion]) =
      (offers.removeAll found).filter fun other => !other == suggestion := by
  unfold List.removeAll
  rw [List.filter_filter]
  refine List.filter_congr fun other _ => ?_
  by_cases same : other = suggestion <;> simp [same]

theorem gather_eq (limit : Nat) (offer : Value → Option String) (ids : List Value)
    {found : List String} (fits : found.length ≤ limit) :
    gather limit offer ids found =
      (found ++ ((ids.filterMap offer).removeAll found).eraseDups).take limit := by
  -- What has been found stays in front, and of what is offered each thing that has not been found
  -- yet is added once, up to the limit.
  induction ids generalizing found with
  | nil => simp [gather, List.take_of_length_le fits]
  | cons id rest ih =>
    unfold gather
    split
    next full =>
      have same : limit = found.length := Nat.le_antisymm full fits
      simp [same]
    next room =>
      split
      next none => rw [ih fits, List.filterMap_cons_none none]
      next suggestion offered =>
        rw [List.filterMap_cons_some offered]
        split
        next old => simp [ih fits, List.cons_removeAll, old]
        next new =>
          have fits' : (found ++ [suggestion]).length ≤ limit := by simp; omega
          -- What is found now is no longer new behind it.
          simp [ih fits', List.cons_removeAll, new, List.eraseDups_cons, removeAll_append_singleton]

theorem gather_nil (limit : Nat) (offer : Value → Option String) (ids : List Value) :
    gather limit offer ids [] = ((ids.filterMap offer).eraseDups).take limit := by
  rw [gather_eq limit offer ids (Nat.zero_le _), List.removeAll_nil, List.nil_append]

theorem nodup_gather {limit : Nat} {offer : Value → Option String} {ids : List Value}
    {found : List String} (distinct : found.Nodup) : (gather limit offer ids found).Nodup := by
  induction ids generalizing found with
  | nil => exact distinct
  | cons id rest ih =>
    unfold gather
    split
    · exact distinct
    · split
      · exact ih distinct
      next suggestion _ =>
        split
        · exact ih distinct
        next new =>
          refine ih (List.nodup_append.mpr ⟨distinct, by simp, ?_⟩)
          rintro other inside _ own rfl
          exact new (List.mem_singleton.mp own ▸ inside)

variable {σ : Type}

theorem filterMap_offer? (rules : IdRules σ) (input : Input σ) (context : Context) (count : Nat)
    (ids : List Value) :
    ids.filterMap (offer? rules input context count) =
      (((ids.filter (rules.filter.accepts input context)).map rules.source.render).filter
        (· ≠ "")).map (Line.lastOf count) := by
  induction ids with
  | nil => rfl
  | cons id rest ih =>
    cases accepted : rules.filter.accepts input context id with
    | false => simp [offer?, accepted, ih]
    | true =>
      by_cases empty : rules.source.render id = ""
      · simp [offer?, accepted, empty, ih]
      · simp [offer?, accepted, empty, ih, lastPart_eq]

end Completion

variable {σ : Type}

/-- All that there is to offer for the tokens that have been typed: the pinned identifiers and then,
once enough has been typed, the regular ones, of which those count that are accepted and not shown
as nothing. Of each the last token is given its part. -/
def IdRules.offers (rules : IdRules σ) (input : Input σ) (context : Context)
    (typed : List String) : List String :=
  let lead := Line.joined typed
  let regular :=
    if rules.minimumTyped ≤ lead.length then rules.source.suggestions input context lead else []
  let accepted :=
    (rules.source.pinned input context lead ++ regular).filter (rules.filter.accepts input context)
  ((accepted.map rules.source.render).filter (· ≠ "")).map (Line.lastOf typed.length)

namespace Completion

theorem gather_candidates (rules : IdRules σ) (input : Input σ) (context : Context)
    (typed : List String) :
    gather input.maxSuggestions (offer? rules input context typed.length)
        (candidates rules input context (Line.joined typed)) [] =
      (rules.offers input context typed).eraseDups.take input.maxSuggestions := by
  rw [gather_nil, filterMap_offer?]
  rfl

theorem mem_of_mem_candidates {rules : IdRules σ} {input : Input σ} {context : Context}
    {typed : String} {id : Value} (candidate : id ∈ candidates rules input context typed) :
    id ∈ rules.source.pinned input context typed ++
      rules.source.suggestions input context typed := by
  unfold candidates at candidate
  rcases List.mem_append.mp candidate with pinned | regular
  · exact List.mem_append_left _ pinned
  · split at regular
    · exact List.mem_append_right _ regular
    · cases regular

end Completion

def Reading.EndsEarly (reading : Reading) : Prop :=
  reading.outcome.isOk = true ∧ reading.cursor.remaining ≠ []

namespace Completion

section

variable {rules : IdRules σ} {input : Input σ} {inner : Reader} {context : Context}
  {cursor : Cursor}

theorem suggestions_identifier_of_silent
    (silent : cursor.remaining = [] ∨ (inner context cursor).EndsEarly) :
    (identifier rules input inner context cursor).suggestions = [] := by
  unfold identifier
  split
  next => rfl
  next left =>
    have early : (inner context cursor).EndsEarly :=
      silent.resolve_left (cursor.hasNext_iff.mp (by simpa using left))
    rw [Reading.EndsEarly, ← Cursor.hasNext_iff, ← Bool.and_eq_true] at early
    dsimp only
    rw [if_pos early]

theorem suggestions_identifier_of_asked
    (asked : ¬(cursor.remaining = [] ∨ (inner context cursor).EndsEarly)) :
    (identifier rules input inner context cursor).suggestions =
      (rules.offers input context cursor.remaining).eraseDups.take input.maxSuggestions := by
  obtain ⟨left, late⟩ := not_or.mp asked
  have next := cursor.hasNext_iff.mpr left
  rw [Reading.EndsEarly, ← Cursor.hasNext_iff, ← Bool.and_eq_true] at late
  unfold identifier
  rw [if_neg (by simp [next])]
  dsimp only
  rw [if_neg late]
  exact gather_candidates ..

theorem exists_of_mem_identifier {suggestion : String}
    (offered : suggestion ∈ (identifier rules input inner context cursor).suggestions) :
    ∃ id ∈ candidates rules input context (Line.joined cursor.remaining),
      rules.filter.accepts input context id = true ∧
        lastPart cursor.remaining.length (rules.source.render id) = suggestion := by
  by_cases silent : cursor.remaining = [] ∨ (inner context cursor).EndsEarly
  · rw [suggestions_identifier_of_silent silent] at offered
    cases offered
  · rw [suggestions_identifier_of_asked silent] at offered
    have inside := List.mem_eraseDups.mp (List.mem_of_mem_take offered)
    obtain ⟨rendered, shown, part⟩ := List.mem_map.mp inside
    obtain ⟨id, accepted, rfl⟩ := List.mem_map.mp (List.mem_filter.mp shown).1
    obtain ⟨candidate, accepted⟩ := List.mem_filter.mp accepted
    exact ⟨id, candidate, accepted, (lastPart_eq _ _).trans part⟩

end

end Completion

namespace Argument

/-- An identifier suggests nothing where nothing is typed, or where tokens follow it. Otherwise it
suggests what there is to offer, each thing once and up to the limit. -/
theorem complete_offers_acceptable (rules : IdRules σ) (inner : Argument σ) (input : Input σ)
    (context : Context) (cursor : Cursor) :
    let silent :=
      cursor.remaining = [] ∨ (inner.read input .viewing context cursor).EndsEarly
    let offers := rules.offers input context cursor.remaining
    let suggestions := ((objectId rules inner).complete input context cursor).suggestions
    (silent → suggestions = []) ∧
      (¬silent → suggestions = offers.eraseDups.take input.maxSuggestions ∧
        (suggestions.length < input.maxSuggestions → ∀ offer ∈ offers, offer ∈ suggestions)) ∧
      suggestions.Nodup := by
  intro silent offers suggestions
  have told (asked : ¬silent) : suggestions = offers.eraseDups.take input.maxSuggestions :=
    Completion.suggestions_identifier_of_asked asked
  have quiet (h : silent) : suggestions = [] := Completion.suggestions_identifier_of_silent h
  refine ⟨quiet, fun asked => ⟨told asked, fun room offer offered => ?_⟩, ?_⟩
  · -- A list that was cut is as long as the limit.
    have short : offers.eraseDups.length ≤ input.maxSuggestions := by
      rw [told asked, List.length_take] at room
      omega
    rw [told asked, List.take_of_length_le short]
    exact List.mem_eraseDups.mpr offered
  · by_cases h : silent
    · rw [quiet h]
      exact List.nodup_nil
    · rw [told h, ← Completion.gather_candidates]
      exact Completion.nodup_gather List.nodup_nil

def wares : IdRules Unit where
  label := ⟨"ware", none⟩
  source := {
    render := Value.shown
    suggestions := fun _ _ _ =>
      [.text "red pot", .text "", .text "blue pot", .text "red hat", .text "redcurrant"]
    pinned := fun _ _ _ => [.text "red cap"] }
  filter := ⟨fun _ _ id => id ≠ .text "red hat", Filter.refusal⟩
  minimumTyped := 4

/-- Two pots look the same behind what has been typed, the hat is refused, and what has no second
part is shown as it is. -/
theorem complete_offers_acceptable_wares :
    let ware : Argument Unit := .text ⟨"ware", none⟩ true
    let cursor := Cursor.ofList ["red", ""]
    ¬(cursor.remaining = [] ∨ (ware.read ⟨(), 20⟩ .viewing .empty cursor).EndsEarly) ∧
      wares.offers ⟨(), 20⟩ .empty cursor.remaining = ["cap", "pot", "pot", "redcurrant"] ∧
      ((objectId wares ware).complete ⟨(), 20⟩ .empty cursor).suggestions =
        ["cap", "pot", "redcurrant"] := by
  intro ware cursor
  have asked :
      ¬(cursor.remaining = [] ∨ (ware.read ⟨(), 20⟩ .viewing .empty cursor).EndsEarly) := by
    rintro (none | ⟨-, left⟩)
    · cases none
    · exact left (by decide +kernel)
  have offers : wares.offers ⟨(), 20⟩ .empty cursor.remaining =
      ["cap", "pot", "pot", "redcurrant"] := by decide +kernel
  obtain ⟨-, told, -⟩ := complete_offers_acceptable wares ware ⟨(), 20⟩ .empty cursor
  refine ⟨asked, offers, (told asked).1.trans ?_⟩
  rw [offers]
  decide +kernel

end Argument

end CommandLine
