import CommandLine.Market.Shell
import CommandLine.Proofs.Bytes
import CommandLine.Proofs.Extending
import CommandLine.Proofs.Retyping

/-! The tabulator edits one word.

The shell looks for the word in the bytes of the line, and its commands complete
the last of the tokens. Both are the same text, since a token has no space in it
and all that comes before the last one ends in a space. No command suggests a
text with a space, so that each suggestion is one token in its place.
-/

set_option autoImplicit false

namespace CommandLine

namespace Line

variable {words : List String}

def opened (words : List String) : String :=
  joined (words ++ [""])

theorem opened_append (words : List String) (last : String) :
    opened words ++ last = joined (words ++ [last]) := by
  rw [opened, joined_append_last, String.empty_append]

theorem opened_ends (words : List String) :
    ∀ c, (opened words).toList.getLast? = some c → c = separator := by
  induction words with
  | nil => simp [opened]
  | cons word words ih =>
    intro c ends
    rw [opened, List.cons_append, joined_cons word (by simp), ← opened, String.toList_ofList] at ends
    cases behind : (opened words).toList with
    | nil =>
      -- Behind the last word stands its own separator.
      rw [behind, List.getLast?_concat] at ends
      exact (Option.some.inj ends).symm
    | cons d rest =>
      rw [List.getLast?_append_of_ne_nil _ (by simp), List.getLast?_cons_of_ne_nil (by simp [behind])]
        at ends
      exact ih c ends

theorem exists_opened_append (line : String) :
    ∃ words last, partialTokens line = words ++ [last] ∧ line = opened words ++ last ∧
      (∀ word ∈ words, separator ∉ word.toList) ∧ separator ∉ last.toList := by
  have tokens := (List.dropLast_concat_getLast (partialTokens_ne_nil line)).symm
  refine ⟨_, _, tokens, ?_, fun word inside => ?_, ?_⟩
  · rw [opened_append, ← tokens, joined_partialTokens]
  · exact separator_not_mem_of_mem_partialTokens (List.dropLast_subset _ inside)
  · exact separator_not_mem_of_mem_partialTokens (List.getLast_mem _)

theorem partialTokens_opened_append (unspaced : ∀ word ∈ words, separator ∉ word.toList)
    (text : String) : partialTokens (opened words ++ text) = words ++ partialTokens text := by
  rw [opened_append, partialTokens_joined unspaced]

theorem partialTokens_of_unspaced {word : String} (unspaced : separator ∉ word.toList) :
    partialTokens word = [word] := by
  have uncut : ∀ c ∈ word.toList, (c == separator) = false := by
    intro c inside
    rw [beq_eq_false_iff_ne]
    rintro rfl
    exact unspaced inside
  rw [partialTokens, List.splitOn_eq_splitOnP, List.splitOnP_eq_singleton uncut, List.map_singleton,
    String.ofList_toList]

end Line

namespace Completion

/-- A text of one token is its own last part, however many tokens there are. -/
theorem lastPart_of_unspaced {text : String} (unspaced : Line.separator ∉ text.toList)
    (count : Nat) : lastPart count text = text := by
  rw [lastPart_eq, Line.lastOf, Line.partialTokens_of_unspaced unspaced]
  split
  next single =>
    rw [List.length_singleton] at single
    rw [Nat.sub_eq_zero_of_le single, List.drop_zero, Line.joined_singleton]
  next => rfl

end Completion

variable {σ : Type}

def IdSource.Unspaced (source : IdSource σ) (input : Input σ) : Prop :=
  ∀ context typed, ∀ id ∈ source.pinned input context typed ++
      source.suggestions input context typed,
    Line.separator ∉ (source.render id).toList

namespace Argument

def ShowsTokens (input : Input σ) : Argument σ → Prop
  | .literal _ word => Line.separator ∉ word.toList
  | .recorder _ accepted => Line.separator ∉ accepted.toList
  | .named inner => Line.separator ∉ inner.info.lead.toList
  | .objectId rules _ => rules.source.Unspaced input
  | _ => True

section

variable {input : Input σ} {argument : Argument σ} {context : Context} {cursor : Cursor}

theorem unspaced_identifier {rules : IdRules σ} (shows : rules.source.Unspaced input)
    (inner : Reader) :
    ∀ suggestion ∈ (Completion.identifier rules input inner context cursor).suggestions,
      Line.separator ∉ suggestion.toList := by
  intro suggestion inside
  obtain ⟨id, candidate, -, rfl⟩ := Completion.exists_of_mem_identifier inside
  have whole := shows context _ id (Completion.mem_of_mem_candidates candidate)
  rw [Completion.lastPart_of_unspaced whole]
  exact whole

theorem unspaced_complete (shows : argument.Everywhere (ShowsTokens input)) :
    ∀ suggestion ∈ (argument.complete input context cursor).suggestions,
      Line.separator ∉ suggestion.toList := by
  -- The texts of the leaves and the leads around them are all that is suggested.
  induction argument generalizing context cursor with
  | literal name word =>
    intro suggestion inside
    rw [List.mem_singleton.mp (Completion.mem_of_mem_words inside)]
    exact shows.self
  | boolean label =>
    intro suggestion inside
    have either : ∀ word ∈ ["true", "false"], Line.separator ∉ word.toList := by decide +kernel
    exact either suggestion (Completion.mem_of_mem_words inside)
  | recorder name accepted =>
    intro suggestion inside
    rw [List.mem_singleton.mp inside]
    exact shows.self
  | optional inner ih => exact ih shows.optional
  | named inner ih =>
    intro suggestion inside
    obtain ⟨typed, others, -, offer⟩ := Completion.offer_of_mem_named inside
    cases offer with
    | lead => exact shows.self
    | inner _ _ _ answers =>
      rw [String.toList_append, List.mem_append, not_or]
      exact ⟨shows.self, ih shows.named _ answers⟩
  | mapped inner mapping ih => exact ih shows.mapped
  | fallback primary producer ofPrimary ofProducer =>
    intro suggestion inside
    rcases Completion.mem_of_mem_fallback inside with first | second
    · exact ofPrimary shows.primary suggestion first
    · exact ofProducer shows.producer suggestion second
  | sequence label parts compute joinsFormats ofParts =>
    refine Completion.forall_suggestions_inOrder (fun _ => True) (fun _ _ _ _ _ _ => trivial) ?_
      trivial nofun
    rw [completionParts_eq_map, List.forall_mem_map]
    exact fun part member _ _ _ => ofParts part member (shows.part part member)
  | firstOf label alternatives style ofAlternatives =>
    intro suggestion inside
    rcases Completion.mem_suggestions_firstFrom inside with none | ⟨completer, member, own⟩
    · cases none
    · rw [completers_eq_map] at member
      obtain ⟨alternative, stands, rfl⟩ := List.mem_map.mp member
      exact ofAlternatives alternative stands (shows.alternative alternative stands) suggestion own
  | objectId rules inner => exact unspaced_identifier shows.self _
  | objectById rules id inner => exact unspaced_identifier shows.object.self _
  | _ => exact nofun

theorem unspaced_suggestFrom {arguments : List (Argument σ)}
    (shows : ∀ argument ∈ arguments, argument.Everywhere (ShowsTokens input)) :
    ∀ suggestion ∈ (suggestFrom input arguments context cursor []).suggestions,
      Line.separator ∉ suggestion.toList :=
  forall_suggestions_suggestFrom (fun _ => True) (fun _ _ _ _ _ _ => trivial)
    (fun argument member _ _ _ => unspaced_complete (shows argument member)) trivial nofun

end

end Argument

namespace Market

section

variable {input : Input Player} {context : Context} {typed : String} {id : Value}

theorem exists_of_mem_shopIds
    (inside : id ∈ shopIds.pinned input context typed ++ shopIds.suggestions input context typed) :
    ∃ number : Nat, id = Shop.idValue number ∧
      Text.startsWith (toString number) typed = true := by
  rcases List.mem_append.mp inside with pinned | listed
  · obtain ⟨number, kept, rfl⟩ := List.mem_map.mp pinned
    exact ⟨number, rfl, (List.mem_filter.mp kept).2⟩
  · obtain ⟨shop, kept, rfl⟩ := List.mem_map.mp listed
    exact ⟨shop.id, rfl, (List.mem_filter.mp kept).2⟩

theorem exists_of_mem_shopNames
    (inside : id ∈ shopNames.pinned input context typed ++
      shopNames.suggestions input context typed) :
    ∃ shop ∈ shops, id = .text shop.name ∧
      Text.startsIgnoringCase shop.name typed = true := by
  obtain ⟨shop, kept, rfl⟩ := List.mem_map.mp inside
  obtain ⟨listed, starts⟩ := List.mem_filter.mp kept
  exact ⟨shop, listed, rfl, starts⟩

theorem extends_shopIds (input : Input Player) : shopIds.Extends input := by
  intro context typed id inside
  obtain ⟨number, rfl, starts⟩ := exists_of_mem_shopIds inside
  exact Text.startsIgnoringCase_of_startsWith starts

theorem extends_shopNames (input : Input Player) : shopNames.Extends input := by
  intro context typed id inside
  obtain ⟨shop, -, rfl, starts⟩ := exists_of_mem_shopNames inside
  exact starts

theorem separator_not_mem_toString (number : Nat) :
    Line.separator ∉ (toString number).toList := by
  intro inside
  rw [Nat.toString_eq_repr, Nat.toList_repr] at inside
  exact absurd (Nat.isDigit_of_mem_toDigits (by decide) (by decide) inside) (by decide)

theorem separator_not_mem_name : ∀ shop ∈ shops, Line.separator ∉ shop.name.toList := by
  decide +kernel

theorem unspaced_shopIds (input : Input Player) : shopIds.Unspaced input := by
  intro context typed id inside
  obtain ⟨number, rfl, -⟩ := exists_of_mem_shopIds inside
  exact separator_not_mem_toString number

theorem unspaced_shopNames (input : Input Player) : shopNames.Unspaced input := by
  intro context typed id inside
  obtain ⟨shop, listed, rfl, -⟩ := exists_of_mem_shopNames inside
  exact separator_not_mem_name shop listed

end

section

variable (input : Input Player)

theorem extendable_commands :
    ∀ entry ∈ commands, ∀ argument ∈ entry.2.arguments, argument.Extendable input := by
  simp [commands, remove, list, teleport, shopArgument, playerArgument, Argument.orTargeted,
    Argument.orInvoker, Argument.orDefault, Argument.Extendable, Argument.Everywhere,
    Argument.nodes, Argument.nodesOfAll, Argument.AnswersTyping, extends_shopIds,
    extends_shopNames]

theorem showsTokens_commands :
    ∀ entry ∈ commands, ∀ argument ∈ entry.2.arguments,
      argument.Everywhere (Argument.ShowsTokens input) := by
  simp [commands, remove, list, teleport, shopArgument, playerArgument, Argument.orTargeted,
    Argument.orInvoker, Argument.orDefault, Argument.Everywhere, Argument.nodes,
    Argument.nodesOfAll, Argument.ShowsTokens, unspaced_shopIds, unspaced_shopNames,
    Line.separator]

end

namespace Shell

section

variable {found more : List String} {suggestion : String}

theorem mem_of_mem_addMissing (inside : suggestion ∈ addMissing found more) :
    suggestion ∈ found ∨ suggestion ∈ more := by
  induction more generalizing found with
  | nil => exact .inl inside
  | cons first rest ih =>
    rw [addMissing, List.foldl_cons, ← addMissing] at inside
    rcases ih inside with old | new
    · split at old
      · exact .inl old
      · rcases List.mem_append.mp old with older | own
        · exact .inl older
        · exact .inr (List.mem_singleton.mp own ▸ List.mem_cons_self)
    · exact .inr (List.mem_cons_of_mem _ new)

theorem nodup_addMissing (distinct : found.Nodup) : (addMissing found more).Nodup := by
  induction more generalizing found with
  | nil => exact distinct
  | cons first rest ih =>
    rw [addMissing, List.foldl_cons, ← addMissing]
    apply ih
    split
    · exact distinct
    next new =>
      have apart : ∀ other ∈ found, other ≠ first := fun other inside same => new (same ▸ inside)
      simpa [List.nodup_append, distinct] using apart

end

section

variable {input : Input Player} {line suggestion : String} {found : List String}

structure Collected (input : Input Player) (line : String) (found : List String) : Prop where
  distinct : found.Nodup
  offered : ∀ suggestion ∈ found,
    ∃ entry ∈ commands, suggestion ∈ (entry.2.completeLine input line).suggestions

theorem Collected.add (collected : Collected input line found) {entry : String × Command Player}
    (member : entry ∈ commands) :
    Collected input line (addMissing found (entry.2.completeLine input line).suggestions) := by
  refine ⟨nodup_addMissing collected.distinct, fun suggestion inside => ?_⟩
  rcases mem_of_mem_addMissing inside with old | new
  · exact collected.offered suggestion old
  · exact ⟨entry, member, new⟩

theorem collected_complete (input : Input Player) (line : String) :
    Collected input line (complete input line) := by
  have none : Collected input line [] := ⟨List.nodup_nil, nofun⟩
  have all := List.foldlRecOn (motive := Collected input line) commands
    (fun found entry => addMissing found (entry.2.completeLine input line).suggestions) none
    fun _ collected _ member => collected.add member
  constructor
  · exact all.distinct.sublist (List.take_sublist _ _)
  · exact fun suggestion inside => all.offered suggestion (List.mem_of_mem_take inside)

/-- A suggestion goes on from the last token, and is one token itself. -/
theorem complete_fits_word {last : String} (ends : (Line.partialTokens line).getLast? = some last)
    (inside : suggestion ∈ complete input line) :
    Text.startsIgnoringCase suggestion last = true ∧ Line.separator ∉ suggestion.toList := by
  obtain ⟨entry, member, offered⟩ := (collected_complete input line).offered suggestion inside
  have typing : (Cursor.ofPartialLine line).Typing last :=
    ⟨ends, fun token there => Line.separator_not_mem_of_mem_partialTokens there⟩
  constructor
  · exact Argument.extends_suggestFrom (extendable_commands input entry member) typing
      suggestion offered
  · exact Argument.unspaced_suggestFrom (showsTokens_commands input entry member)
      suggestion offered

end

/-- Going back from the end, the first separator is the one behind the words before the last. -/
theorem wordStart_opened_append (words : List String) {last : String}
    (unspaced : Line.separator ∉ last.toList) :
    wordStart (Line.opened words ++ last).toList = (Line.opened words).utf8ByteSize := by
  have inLast : ∀ c ∈ last.toList.reverse, decide (c ≠ Line.separator) = true := by
    intro c inside
    rw [decide_eq_true_iff]
    rintro rfl
    exact unspaced (List.mem_reverse.mp inside)
  -- Before the last word there is a separator, or nothing at all.
  have ended : (Line.opened words).toList.reverse.takeWhile (· ≠ Line.separator) = [] := by
    cases back : (Line.opened words).toList.reverse with
    | nil => rfl
    | cons c rest =>
      have ends := Line.opened_ends words c (by simp [← List.head?_reverse, back])
      simp [ends]
  have typed : ((Line.opened words ++ last).toList.reverse.takeWhile
      (· ≠ Line.separator)).reverse = last.toList := by
    rw [String.toList_append, List.reverse_append, List.takeWhile_append_of_pos inLast, ended,
      List.append_nil, List.reverse_reverse]
  simp only [wordStart, typed]
  simp

theorem tab?_of_splits (input : Input Player) {line before behind : String}
    {position : line.Pos} (splits : position.Splits before behind) :
    tab? input line position.offset.byteIdx =
      some (wordStart before.toList, complete input before) := by
  have size : position.offset.byteIdx = String.utf8Len before.toList := by
    rw [splits.offset_eq_rawEndPos, String.byteIdx_rawEndPos, String.utf8Len_toList]
  have whole : line.toList = before.toList ++ behind.toList := by
    rw [splits.eq_append, String.toList_append]
  rw [tab?, size, whole, Text.takeBytes?_append, Option.map_some, String.ofList_toList]

/-- The tabulator puts something in the place of the last token before `position` and of nothing
else: it says where that token starts, and whatever it suggests goes on from the token and is one
token in its place, with the rest of the line behind it or without. -/
theorem tab_edits_word (input : Input Player) (line : String) (position : line.Pos) :
    ∃ (start : line.Pos) (found : List String),
      tab? input line position.offset.byteIdx = some (start.offset.byteIdx, found) ∧
        start ≤ position ∧ found.Nodup ∧ found.length ≤ input.maxSuggestions ∧
        let before := line.extract line.startPos position
        let behind := line.extract position line.endPos
        let kept := line.extract line.startPos start
        let typed := line.extract start position
        let others := (Line.partialTokens before).dropLast
        Line.partialTokens before = others ++ [typed] ∧
          Line.partialTokens line = others ++ Line.partialTokens (typed ++ behind) ∧
          ∀ suggestion ∈ found, Text.startsIgnoringCase suggestion typed = true ∧
            Line.partialTokens (kept ++ suggestion) = others ++ [suggestion] ∧
            Line.partialTokens (kept ++ suggestion ++ behind) =
              others ++ Line.partialTokens (suggestion ++ behind) := by
  obtain ⟨before, behind, splits⟩ : ∃ before behind, position.Splits before behind :=
    ⟨_, _, position.splits⟩
  obtain ⟨others, typed, tokens, cut, ofOthers, ofTyped⟩ := Line.exists_opened_append before
  have whole : line = Line.opened others ++ (typed ++ behind) := by
    rw [splits.eq_append, cut, String.append_assoc]
  -- The words before the last one end between two characters, so the word has a place to start.
  let start : line.Pos :=
    ⟨(Line.opened others).rawEndPos,
      String.Pos.Raw.isValid_iff_exists_append.mpr ⟨_, _, whole, rfl⟩⟩
  have starts : start.Splits (Line.opened others) (typed ++ behind) := ⟨whole, rfl⟩
  have stops : position.Splits (Line.opened others ++ typed) behind := cut ▸ splits
  have told : tab? input line position.offset.byteIdx =
      some (start.offset.byteIdx, complete input before) := by
    have size := wordStart_opened_append others ofTyped
    rw [← cut] at size
    rw [tab?_of_splits input splits, size]
    rfl
  refine ⟨start, complete input before, told, ?_, (collected_complete input before).distinct,
    List.length_take_le _ _, ?_⟩
  · exact (starts.le_iff_exists_eq_append stops).mpr ⟨typed, rfl, rfl⟩
  · rw [Text.extract_startPos_of_splits splits, Text.extract_endPos_of_splits splits,
      Text.extract_startPos_of_splits starts, Text.extract_of_splits starts stops]
    dsimp only
    rw [tokens, List.dropLast_concat]
    refine ⟨rfl, ?_, fun suggestion inside => ?_⟩
    · rw [whole, Line.partialTokens_opened_append ofOthers]
    · have ends : (Line.partialTokens before).getLast? = some typed := by
        rw [tokens, List.getLast?_concat]
      obtain ⟨goesOn, single⟩ := complete_fits_word ends inside
      refine ⟨goesOn, ?_, ?_⟩
      · rw [Line.partialTokens_opened_append ofOthers, Line.partialTokens_of_unspaced single]
      · rw [String.append_assoc, Line.partialTokens_opened_append ofOthers]

/-- In the middle of a line the name of a shop is completed, and only that. -/
theorem tab_edits_word_market :
    let input : Input Player := ⟨⟨"dave", some 12⟩, 20⟩
    tab? input "remove M é" 8 = some (7, ["market"]) ∧
      Text.startsIgnoringCase "market" "M" = true ∧
      Line.partialTokens ("remove " ++ "market") = ["remove", "market"] ∧
      Line.partialTokens ("remove " ++ "market" ++ " é") =
        ["remove"] ++ Line.partialTokens ("market" ++ " é") := by
  intro input
  have valid : (String.Pos.Raw.mk 8).IsValid "remove M é" :=
    String.Pos.Raw.isValid_iff_exists_append.mpr ⟨"remove M", " é", by decide +kernel, rfl⟩
  have answer : tab? input "remove M é" 8 = some (7, ["market"]) := by decide +kernel
  have others : (Line.partialTokens ("remove " ++ "M")).dropLast = ["remove"] := by decide +kernel
  obtain ⟨start, found, told, -, -, -, -, -, fits⟩ :=
    tab_edits_word input "remove M é" ⟨⟨8⟩, valid⟩
  obtain ⟨begins, rfl⟩ := Prod.mk.inj (Option.some.inj (told.symm.trans answer))
  have starts : start.Splits "remove " ("M" ++ " é") :=
    ⟨by decide +kernel, String.Pos.Raw.ext begins⟩
  have stops : String.Pos.Splits ⟨⟨8⟩, valid⟩ ("remove " ++ "M") " é" :=
    ⟨by decide +kernel, rfl⟩
  have goesOn := fits "market" List.mem_cons_self
  rw [Text.extract_startPos_of_splits starts, Text.extract_of_splits starts stops,
    Text.extract_startPos_of_splits stops, Text.extract_endPos_of_splits stops] at goesOn
  simp only [others] at goesOn
  exact ⟨answer, goesOn⟩

end Shell

end Market

end CommandLine
