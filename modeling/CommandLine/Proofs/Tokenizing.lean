import CommandLine.Line

/-! What cutting a line keeps of it.

Single spaces lose nothing but themselves, and blanks nothing but blanks. As a
space is a blank, the tokens of a finished line are those of the pieces that the
same line has while it is being typed.
-/

set_option autoImplicit false

namespace CommandLine.Line

section

variable {α : Type} {p : α → Bool}

theorem splitOnP_cons_of_kept {a : α} (kept : p a = false) (rest : List α) :
    ∃ head tail, rest.splitOnP p = head :: tail ∧
      (a :: rest).splitOnP p = (a :: head) :: tail := by
  obtain ⟨head, tail, pieces⟩ := List.exists_cons_of_ne_nil (List.splitOnP_ne_nil p rest)
  refine ⟨head, tail, pieces, ?_⟩
  rw [List.splitOnP_cons_eq_if_modifyHead, if_neg (by simp [kept]), pieces, List.modifyHead_cons]

theorem splitOnP_cons_of_cut {a : α} (cut : p a = true) (rest : List α) :
    (a :: rest).splitOnP p = [] :: rest.splitOnP p := by
  rw [List.splitOnP_cons_eq_if_modifyHead, if_pos cut]

theorem eq_false_of_mem_splitOnP {line piece : List α} (inside : piece ∈ line.splitOnP p) :
    ∀ a ∈ piece, p a = false := by
  induction line generalizing piece with
  | nil =>
    rw [List.splitOnP_nil, List.mem_singleton] at inside
    simp [inside]
  | cons a rest ih =>
    cases cut : p a with
    | true =>
      rw [splitOnP_cons_of_cut cut] at inside
      rcases List.mem_cons.mp inside with rfl | inRest
      · exact nofun
      · exact ih inRest
    | false =>
      obtain ⟨head, tail, pieces, longer⟩ := splitOnP_cons_of_kept cut rest
      rw [longer] at inside
      rw [pieces] at ih
      rcases List.mem_cons.mp inside with rfl | inTail
      · exact List.forall_mem_cons.mpr ⟨cut, ih List.mem_cons_self⟩
      · exact ih (List.mem_cons_of_mem _ inTail)

theorem flatten_splitOnP (p : α → Bool) (line : List α) :
    (line.splitOnP p).flatten = line.filter fun a => !p a := by
  induction line with
  | nil => rfl
  | cons a rest ih =>
    cases cut : p a with
    | true => simp [splitOnP_cons_of_cut cut, cut, ih]
    | false =>
      obtain ⟨head, tail, pieces, longer⟩ := splitOnP_cons_of_kept cut rest
      rw [pieces] at ih
      simp [longer, cut, ← ih]

end

theorem separator_not_mem_of_mem_splitOn {line piece : List Char}
    (inside : piece ∈ line.splitOn separator) : separator ∉ piece := fun there => by
  simpa using eq_false_of_mem_splitOnP inside separator there

theorem separator_not_mem_of_mem_partialTokens {line token : String}
    (inside : token ∈ partialTokens line) : separator ∉ token.toList := by
  obtain ⟨piece, cut, rfl⟩ := List.mem_map.mp inside
  rw [String.toList_ofList]
  exact separator_not_mem_of_mem_splitOn cut

@[simp] theorem joined_singleton (word : String) : joined [word] = word := by
  simp [joined]

theorem joined_cons (word : String) {rest : List String} (more : rest ≠ []) :
    joined (word :: rest) = String.ofList (word.toList ++ separator :: (joined rest).toList) := by
  have behind : rest.map String.toList ≠ [] := mt List.map_eq_nil_iff.mp more
  simp [joined, List.intercalate_cons_of_ne_nil behind]

/-- What a finished line is cut into. -/
structure Word (token : String) : Prop where
  nonempty : token ≠ ""
  unblank : ∀ c ∈ token.toList, Text.isBlank c = false

variable {token : String}

theorem word_of_mem_tokens {line : String} (inside : token ∈ tokens line) : Word token := by
  obtain ⟨piece, found, rfl⟩ := List.mem_map.mp inside
  obtain ⟨cut, nonempty⟩ := List.mem_filter.mp found
  refine ⟨fun empty => ?_, ?_⟩
  · rw [String.ofList_eq_empty_iff.mp empty] at nonempty
    cases nonempty
  · rw [String.toList_ofList]
    exact eq_false_of_mem_splitOnP cut

theorem Word.tokens_eq (word : Word token) : tokens token = [token] := by
  have nonempty : token.toList ≠ [] := mt String.toList_eq_nil_iff.mp word.nonempty
  simp [tokens, List.splitOnP_eq_singleton word.unblank, nonempty]

theorem join_tokens (line : String) :
    String.join (tokens line) = String.ofList (line.toList.filter fun c => !Text.isBlank c) := by
  rw [← flatten_splitOnP, ← List.flatten_filter_not_isEmpty]
  apply String.toList_inj.mp
  simp [tokens, List.flatMap_map]

theorem tokens_append_cons {blank : Char} (separates : Text.isBlank blank = true)
    (front rest : List Char) :
    tokens (.ofList (front ++ blank :: rest)) =
      tokens (.ofList front) ++ tokens (.ofList rest) := by
  simp [tokens, List.splitOnP_append_cons _ _ separates]

theorem tokens_joined (words : List String) : tokens (joined words) = words.flatMap tokens := by
  induction words with
  | nil => decide
  | cons word rest ih =>
    by_cases last : rest = []
    · simp [last]
    · have separates : Text.isBlank separator = true := Text.isBlank_space
      rw [joined_cons word last, tokens_append_cons separates, String.ofList_toList,
        String.ofList_toList, ih, List.flatMap_cons]

theorem tokens_joined_of_words {words : List String} (clean : ∀ word ∈ words, Word word) :
    tokens (joined words) = words := by
  rw [tokens_joined]
  induction words with
  | nil => rfl
  | cons word rest ih =>
    obtain ⟨first, others⟩ := List.forall_mem_cons.mp clean
    rw [List.flatMap_cons, first.tokens_eq, ih others, List.singleton_append]

/-- Cutting at spaces can be undone, cutting at blanks leaves the words of the line, and the words
are the same if the line has been cut at spaces before. -/
theorem cuts_agree (line : String) :
    (joined (partialTokens line) = line ∧ partialTokens line ≠ [] ∧
        ∀ token ∈ partialTokens line, separator ∉ token.toList) ∧
      ((∀ token ∈ tokens line, Word token) ∧
        String.join (tokens line) =
          String.ofList (line.toList.filter fun c => !Text.isBlank c)) ∧
      tokens line = (partialTokens line).flatMap tokens ∧
      ∀ words, (∀ word ∈ words, Word word) → tokens (joined words) = words := by
  refine ⟨⟨joined_partialTokens line, partialTokens_ne_nil line, ?_⟩,
    ⟨?_, join_tokens line⟩, ?_, ?_⟩
  · exact fun token => separator_not_mem_of_mem_partialTokens
  · exact fun token => word_of_mem_tokens
  · rw [← tokens_joined, joined_partialTokens]
  · exact fun words => tokens_joined_of_words

/-- Blanks other than the space stay within a piece of the line until it is finished. -/
theorem cuts_agree_walk :
    partialTokens " go\tto  door\u2003" = ["", "go\tto", "", "door\u2003"] ∧
      tokens " go\tto  door\u2003" = ["go", "to", "door"] ∧
      (∀ word ∈ ["go", "to", "door"], Word word) ∧
      tokens (joined ["go", "to", "door"]) = ["go", "to", "door"] := by
  have cut : tokens " go\tto  door\u2003" = ["go", "to", "door"] := by decide +kernel
  obtain ⟨-, ⟨words, -⟩, -, rejoined⟩ := cuts_agree " go\tto  door\u2003"
  rw [cut] at words
  exact ⟨by decide +kernel, cut, words, rejoined _ words⟩

end CommandLine.Line
