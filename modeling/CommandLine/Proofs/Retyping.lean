import CommandLine.Proofs.Offering

/-! Typing the rest of an identifier of several tokens.

Of such an identifier only the part for the last token is suggested. Behind the
tokens before it, that part gives the whole identifier again, however many spaces
it has and wherever they stand.
-/

set_option autoImplicit false

namespace CommandLine

theorem Text.exists_of_startsWith {text lead : String} (starts : startsWith text lead = true) :
    ∃ rest, text = lead ++ rest := by
  obtain ⟨rest, split⟩ := List.isPrefixOf_iff_prefix.mp starts
  refine ⟨.ofList rest, String.toList_inj.mp ?_⟩
  rw [String.toList_append, String.toList_ofList, split]

namespace Line

theorem joined_append_last (words : List String) (last rest : String) :
    joined (words ++ [last]) ++ rest = joined (words ++ [last ++ rest]) := by
  induction words with
  | nil => simp
  | cons word words ih =>
    rw [List.cons_append, List.cons_append, joined_cons word (by simp), joined_cons word (by simp),
      ← ih]
    apply String.toList_inj.mp
    simp

theorem joined_append_partialTokens (words : List String) (last : String) :
    joined (words ++ partialTokens last) = joined (words ++ [last]) := by
  induction words with
  | nil => simp [joined_partialTokens]
  | cons word words ih =>
    rw [List.cons_append, List.cons_append, joined_cons word (by simp [partialTokens_ne_nil]),
      joined_cons word (by simp), ih]

variable {words : List String}

theorem partialTokens_joined (unspaced : ∀ word ∈ words, separator ∉ word.toList) (last : String) :
    partialTokens (joined (words ++ [last])) = words ++ partialTokens last := by
  induction words with
  | nil => simp
  | cons word words ih =>
    obtain ⟨first, others⟩ := List.forall_mem_cons.mp unspaced
    rw [List.cons_append, joined_cons word (by simp), partialTokens, String.toList_ofList,
      List.splitOn_append_cons_self_of_not_mem first, List.map_cons, String.ofList_toList,
      ← partialTokens, ih others, List.cons_append]

theorem lastOf_joined (unspaced : ∀ word ∈ words, separator ∉ word.toList) (last : String) :
    lastOf (words.length + 1) (joined (words ++ [last])) = last := by
  have pieces := length_partialTokens_pos last
  unfold lastOf
  dsimp only
  rw [partialTokens_joined unspaced, List.length_append, if_pos (by omega), Nat.add_sub_cancel,
    List.drop_left, joined_partialTokens]

end Line

variable {σ : Type}

/-- The identifiers are texts that are shown as they are, and they go on from what has been typed to
the letter. -/
structure IdSource.Verbatim (source : IdSource σ) : Prop where
  shows : ∀ content, source.render (.text content) = content
  leads : ∀ input context typed,
    ∀ id ∈ source.pinned input context typed ++ source.suggestions input context typed,
      ∃ content, id = .text content ∧ Text.startsWith content typed = true

section

variable {rules : IdRules σ} {input : Input σ} {context : Context} {words : List String}
  {last : String}

theorem IdSource.Verbatim.eq_joined (verbatim : rules.source.Verbatim)
    (unspaced : ∀ word ∈ words, Line.separator ∉ word.toList) {id : Value}
    (inside : id ∈ rules.source.pinned input context (Line.joined (words ++ [last])) ++
      rules.source.suggestions input context (Line.joined (words ++ [last]))) :
    id = .text (Line.joined
      (words ++ [Completion.lastPart (words.length + 1) (rules.source.render id)])) := by
  obtain ⟨content, rfl, starts⟩ := verbatim.leads _ _ _ id inside
  obtain ⟨rest, rfl⟩ := Text.exists_of_startsWith starts
  rw [verbatim.shows, Completion.lastPart_eq, Line.joined_append_last, Line.lastOf_joined unspaced]

end

namespace Argument

theorem read_joined {rules : IdRules σ} {input : Input σ} {context : Context} {cursor : Cursor}
    (left : cursor.remaining ≠ [])
    (accepted :
      rules.filter.accepts input context (.text (Line.joined cursor.remaining)) = true)
    (label : Label) (mode : Mode) :
    (objectId rules (.text label true)).read input mode context cursor =
      Reading.kept (.ok (some (.text (Line.joined cursor.remaining))) context cursor.toEnd) mode
        rules.label.name := by
  have next := cursor.hasNext_iff.mpr left
  simp [read, Reading.identifier, Reading.text, next, Filter.judge, accepted, Attempt.ok]

/-- A suggestion for the last of several tokens, typed in its place and cut at its spaces, is read
as one of the source's identifiers: the words before it and the suggestion. No two identifiers share
a suggestion. -/
theorem retyped_names_identifier {rules : IdRules σ} (verbatim : rules.source.Verbatim)
    (label : Label) (input : Input σ) (context : Context) {cursor : Cursor} {words : List String}
    {last : String} (stands : cursor.remaining = words ++ [last])
    (unspaced : ∀ token ∈ cursor.remaining, Line.separator ∉ token.toList) :
    let named := objectId rules (.text label true)
    let typed := Line.joined cursor.remaining
    let ids := rules.source.pinned input context typed ++
      rules.source.suggestions input context typed
    (∀ suggestion ∈ (named.complete input context cursor).suggestions,
      let id := Value.text (Line.joined (words ++ [suggestion]))
      id ∈ ids ∧ rules.filter.accepts input context id = true ∧
        ∀ retyped : Cursor, retyped.remaining = words ++ Line.partialTokens suggestion →
          ∀ mode, named.read input mode context retyped =
            Reading.kept (.ok (some id) context retyped.toEnd) mode rules.label.name) ∧
      ∀ id ∈ ids, ∀ other ∈ ids,
        Completion.lastPart cursor.remaining.length (rules.source.render id) =
          Completion.lastPart cursor.remaining.length (rules.source.render other) → id = other := by
  intro named typed ids
  have clean : ∀ word ∈ words, Line.separator ∉ word.toList := fun word inside =>
    unspaced word (stands ▸ List.mem_append_left _ inside)
  have count : cursor.remaining.length = words.length + 1 := by simp [stands]
  -- With the words known, the part that is shown of an identifier gives the whole of it.
  have whole : ∀ id ∈ ids, id = .text (Line.joined
      (words ++ [Completion.lastPart cursor.remaining.length (rules.source.render id)])) := by
    intro id inside
    rw [count]
    exact verbatim.eq_joined clean (by simpa [ids, typed, stands] using inside)
  refine ⟨fun suggestion offered => ?_, fun id inside other inside' same => ?_⟩
  · obtain ⟨candidate, found, accepted, part⟩ := Completion.exists_of_mem_identifier offered
    have inside := Completion.mem_of_mem_candidates found
    have same := whole candidate inside
    rw [part] at same
    rw [same] at inside accepted
    refine ⟨inside, accepted, fun retyped again mode => ?_⟩
    have left : retyped.remaining ≠ [] := by simp [again, Line.partialTokens_ne_nil]
    have rejoined : Line.joined retyped.remaining = Line.joined (words ++ [suggestion]) := by
      rw [again, Line.joined_append_partialTokens]
    rw [← rejoined] at accepted ⊢
    exact read_joined left accepted label mode
  · rw [whole id inside, whole other inside', same]

def rooms : IdRules Unit where
  label := ⟨"room", none⟩
  source := {
    render := Value.shown
    suggestions := fun _ _ typed =>
      (["red  hall", "red hall", "red", "blue hall"].filter (Text.startsWith · typed)).map .text
    pinned := fun _ _ typed => (["red tower "].filter (Text.startsWith · typed)).map .text }
  filter := .any
  minimumTyped := 2

theorem verbatim_rooms : rooms.source.Verbatim where
  shows _ := rfl
  leads input context typed id inside := by
    simp only [rooms, ← List.map_append, ← List.filter_append] at inside
    obtain ⟨content, found, rfl⟩ := List.mem_map.mp inside
    exact ⟨content, rfl, (List.mem_filter.mp found).2⟩

/-- The two halls stay apart: what is suggested for the one starts with a space. -/
theorem retyped_names_identifier_rooms :
    let named : Argument Unit := objectId rooms (.text ⟨"room", none⟩ true)
    let cursor := Cursor.ofList ["red", ""]
    rooms.source.Verbatim ∧ cursor.remaining = ["red"] ++ [""] ∧
      (∀ token ∈ cursor.remaining, Line.separator ∉ token.toList) ∧
      (named.complete ⟨(), 20⟩ .empty cursor).suggestions = ["tower ", " hall", "hall"] ∧
      Line.partialTokens " hall" = ["", "hall"] ∧
      named.read ⟨(), 20⟩ .viewing .empty (.ofList ["red", "", "hall"]) =
        .ok (some (.text "red  hall")) .empty (Cursor.ofList ["red", "", "hall"]).toEnd := by
  intro named cursor
  have unspaced : ∀ token ∈ cursor.remaining, Line.separator ∉ token.toList := by decide +kernel
  have offers : (named.complete ⟨(), 20⟩ .empty cursor).suggestions =
      ["tower ", " hall", "hall"] := by decide +kernel
  obtain ⟨names, -⟩ := retyped_names_identifier verbatim_rooms ⟨"room", none⟩ ⟨(), 20⟩ .empty
    (show cursor.remaining = ["red"] ++ [""] from rfl) unspaced
  obtain ⟨-, -, read⟩ := names " hall" (offers ▸ by decide)
  exact ⟨verbatim_rooms, rfl, unspaced, offers, by decide +kernel,
    read (.ofList ["red", "", "hall"]) (by decide +kernel) .viewing⟩

end Argument

end CommandLine
