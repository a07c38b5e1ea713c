import CommandLine.Command.Complete
import CommandLine.Proofs.CaseFold
import CommandLine.Proofs.Level
import CommandLine.Proofs.Offering
import CommandLine.Stock.Source

/-! Suggestions go on from what is being typed.

Whatever part of a command the last token belongs to, each suggestion for it
starts with it, without regard to case. A named argument only asks its inner one
about a token that is the last: with a token taken off and others behind it, the
lead would come before what goes on from another token.
-/

set_option autoImplicit false

namespace CommandLine

namespace Text

theorem toLower_eq_separator {c : Char} : c.toLower = Line.separator ↔ c = Line.separator := by
  constructor
  · intro folded
    unfold Char.toLower at folded
    split at folded
    next upper =>
      obtain ⟨low, high⟩ : 65 ≤ c.val.toNat ∧ c.val.toNat ≤ 90 := upper
      have code : (c.val + 32).toNat = 32 := congrArg Char.toNat folded
      rw [UInt32.toNat_add] at code
      change (c.val.toNat + 32) % 2 ^ 32 = 32 at code
      omega
    next => exact folded
  · rintro rfl
    rfl

theorem toList_of_afterLead? {lead token rest : String}
    (strip : afterLead? lead token = some rest) : token.toList = lead.toList ++ rest.toList := by
  unfold afterLead? at strip
  split at strip
  next starts =>
    cases strip
    rw [String.toList_ofList]
    exact (List.prefix_iff_eq_append.mp (List.isPrefixOf_iff_prefix.mp starts)).symm
  next => cases strip

theorem startsIgnoringCase_append {lead text start : String}
    (starts : startsIgnoringCase text start = true) :
    startsIgnoringCase (lead ++ text) (lead ++ start) = true := by
  rw [startsIgnoringCase_iff] at starts ⊢
  rw [String.toList_append, String.toList_append, List.map_append, List.map_append]
  exact (List.prefix_append_right_inj _).mpr starts

theorem startsIgnoringCase_append_left {lead start : String} (text : String)
    (starts : startsIgnoringCase lead start = true) :
    startsIgnoringCase (lead ++ text) start = true := by
  rw [startsIgnoringCase_iff] at starts ⊢
  rw [String.toList_append, List.map_append]
  exact starts.trans (List.prefix_append _ _)

end Text

namespace Line

section

variable {word rest cs : List Char} {words : List (List Char)}

theorem afterSeparators_succ (count : Nat) (unspaced : separator ∉ word)
    (starts : (word ++ separator :: rest).map Char.toLower <+: cs.map Char.toLower) :
    ∃ behind, afterSeparators (count + 1) cs = afterSeparators count behind ∧
      rest.map Char.toLower <+: behind.map Char.toLower := by
  induction word generalizing cs with
  | nil =>
    obtain ⟨_, same, starts⟩ := List.cons_prefix_iff.mp starts
    obtain ⟨c, behind, rfl, folded, rfl⟩ := List.map_eq_cons_iff.mp same
    have found : c = separator := Text.toLower_eq_separator.mp folded
    refine ⟨behind, ?_, starts⟩
    rw [afterSeparators, if_pos found]
  | cons d word ih =>
    simp only [List.mem_cons, not_or] at unspaced
    obtain ⟨other, unspaced⟩ := unspaced
    obtain ⟨_, same, starts⟩ := List.cons_prefix_iff.mp starts
    obtain ⟨c, behind, rfl, folded, rfl⟩ := List.map_eq_cons_iff.mp same
    obtain ⟨after, goesOn, starts⟩ := ih unspaced starts
    have passed : c ≠ separator := by
      rintro rfl
      exact other (Text.toLower_eq_separator.mp folded.symm).symm
    refine ⟨after, ?_, starts⟩
    rw [afterSeparators, if_neg passed, goesOn]

theorem afterSeparators_of_joined (unspaced : ∀ word ∈ words, separator ∉ word)
    (starts : ([separator].intercalate (words ++ [rest])).map Char.toLower <+:
      cs.map Char.toLower) :
    ∃ part, afterSeparators words.length cs = some part ∧
      rest.map Char.toLower <+: part.map Char.toLower := by
  induction words generalizing cs with
  | nil => exact ⟨cs, by cases cs <;> rfl, by simpa using starts⟩
  | cons word words ih =>
    obtain ⟨first, others⟩ := List.forall_mem_cons.mp unspaced
    rw [List.cons_append, List.intercalate_cons_of_ne_nil (by simp), List.append_assoc] at starts
    obtain ⟨behind, goesOn, starts⟩ := afterSeparators_succ words.length first starts
    obtain ⟨part, found, starts⟩ := ih others starts
    exact ⟨part, goesOn.trans found, starts⟩

end

end Line

namespace Cursor

/-- The last of the tokens that remain, none of which has a separator in it. -/
structure Typing (cursor : Cursor) (last : String) : Prop where
  last : cursor.remaining.getLast? = some last
  unspaced : ∀ token ∈ cursor.remaining, Line.separator ∉ token.toList

namespace Typing

variable {cursor start finish : Cursor} {last : String}

theorem of_reaches (typing : start.Typing last) (forward : start.Reaches finish)
    (left : finish.hasNext = true) : finish.Typing last := by
  have suffix : finish.remaining <:+ start.remaining := by
    rw [remaining, forward.tokens]
    exact List.drop_suffix_drop_left _ forward.forward
  refine ⟨?_, fun token inside => typing.unspaced token (suffix.mem inside)⟩
  obtain ⟨read, split⟩ := suffix
  rw [← typing.last, ← split, List.getLast?_append_of_ne_nil _ ((hasNext_iff _).mp left)]

end Typing

theorem remaining_of_finalToken {cursor : Cursor} {token : String}
    (final : cursor.finalToken = some token) : cursor.remaining = [token] := by
  unfold finalToken at final
  split at final
  next single =>
    rw [← length_remaining] at single
    obtain ⟨other, only⟩ := List.length_eq_one_iff.mp single
    rw [peek_eq_head?_remaining, only] at final
    rw [only, Option.some.inj final]
  next => cases final

theorem remaining_of_stripNext? {cursor adjusted : Cursor} {lead : String}
    (strip : cursor.stripNext? lead = some adjusted) :
    ∃ token rest others, cursor.remaining = token :: others ∧
      token.toList = lead.toList ++ rest.toList ∧ adjusted.remaining = rest :: others := by
  obtain ⟨token, rest, others, ahead, after, remaining⟩ := exists_of_stripNext? strip
  exact ⟨token, rest, others, ahead, Text.toList_of_afterLead? after, remaining⟩

end Cursor

namespace Completion

def Extends (completer : Completer) : Prop :=
  ∀ context cursor last, cursor.Typing last →
    ∀ suggestion ∈ (completer context cursor).suggestions,
      Text.startsIgnoringCase suggestion last = true

def OnlyAtLast (completer : Completer) : Prop :=
  ∀ context cursor, cursor.remainingCount ≠ 1 → (completer context cursor).suggestions = []

theorem mem_extend {limit : Nat} {found more : List String} {suggestion : String}
    (inside : suggestion ∈ extend limit found more) : suggestion ∈ found ∨ suggestion ∈ more := by
  rcases List.mem_append.mp inside with old | new
  · exact .inl old
  · exact .inr (List.mem_of_mem_take new)

theorem mem_of_mem_words {candidates : List String} {context : Context} {cursor : Cursor}
    {suggestion : String}
    (inside : suggestion ∈ (words candidates context cursor).suggestions) :
    suggestion ∈ candidates := by
  unfold words at inside
  split at inside
  next => cases inside
  next => exact List.mem_of_mem_filter inside

section

variable {limit : Nat}

theorem mem_of_mem_fallback {primary producer : Completer} {context : Context} {cursor : Cursor}
    {suggestion : String}
    (inside : suggestion ∈ (fallback limit primary producer context cursor).suggestions) :
    suggestion ∈ (primary context cursor).suggestions ∨
      suggestion ∈ (producer context cursor).suggestions := by
  unfold fallback at inside
  dsimp only at inside
  split at inside
  next => exact .inl (List.mem_of_mem_take inside)
  next => exact mem_extend inside

theorem extends_nothing : Extends nothing := by
  intro context cursor last _ suggestion inside
  cases inside

theorem extends_words (candidates : List String) : Extends (words candidates) := by
  intro context cursor last typing suggestion inside
  unfold words at inside
  split at inside
  next => cases inside
  next typed final =>
    have same : typed = last := by
      have ends := typing.last
      rw [Cursor.remaining_of_finalToken final] at ends
      exact Option.some.inj ends
    exact same ▸ (List.mem_filter.mp inside).2

theorem onlyAtLast_words (candidates : List String) : OnlyAtLast (words candidates) := by
  intro context cursor several
  simp [words, Cursor.finalToken, several]

theorem extends_fallback {primary producer : Completer} (ofPrimary : Extends primary)
    (ofProducer : Extends producer) : Extends (fallback limit primary producer) := by
  intro context cursor last typing suggestion inside
  rcases mem_of_mem_fallback inside with first | second
  · exact ofPrimary context cursor last typing _ first
  · exact ofProducer context cursor last typing _ second

theorem onlyAtLast_fallback {primary producer : Completer} (ofPrimary : OnlyAtLast primary)
    (ofProducer : OnlyAtLast producer) : OnlyAtLast (fallback limit primary producer) := by
  intro context cursor several
  unfold fallback
  dsimp only
  rw [ofPrimary context cursor several, ofProducer context cursor several]
  split <;> simp [extend]

theorem mem_suggestions_firstFrom {alternatives : List Completer} {context : Context}
    {start cursor : Cursor} {found : List String} {suggestion : String}
    (inside : suggestion ∈ (firstFrom limit context start alternatives cursor found).suggestions) :
    suggestion ∈ found ∨
      ∃ alternative ∈ alternatives, suggestion ∈ (alternative context start).suggestions := by
  induction alternatives generalizing cursor found with
  | nil => exact .inl inside
  | cons alternative rest ih =>
    have first : suggestion ∈ extend limit found (alternative context start).suggestions ∨
        ∃ alternative ∈ rest, suggestion ∈ (alternative context start).suggestions := by
      unfold firstFrom at inside
      dsimp only at inside
      split at inside
      · exact .inl inside
      · exact ih inside
    rcases first with here | ⟨other, member, later⟩
    · rcases mem_extend here with old | own
      · exact .inl old
      · exact .inr ⟨alternative, List.mem_cons_self, own⟩
    · exact .inr ⟨other, List.mem_cons_of_mem _ member, later⟩

theorem extends_firstOf {alternatives : List Completer}
    (ofAlternatives : ∀ alternative ∈ alternatives, Extends alternative) :
    Extends (firstOf limit alternatives) := by
  intro context cursor last typing suggestion inside
  rcases mem_suggestions_firstFrom inside with none | ⟨alternative, member, own⟩
  · cases none
  · exact ofAlternatives alternative member context cursor last typing suggestion own

theorem onlyAtLast_firstOf {alternatives : List Completer}
    (ofAlternatives : ∀ alternative ∈ alternatives, OnlyAtLast alternative) :
    OnlyAtLast (firstOf limit alternatives) := by
  intro context cursor several
  apply List.eq_nil_iff_forall_not_mem.mpr
  intro suggestion inside
  rcases mem_suggestions_firstFrom inside with none | ⟨alternative, member, own⟩
  · cases none
  · rw [ofAlternatives alternative member context cursor several] at own
    cases own

/-- What a named argument may suggest for the next token `typed`, before `others`. -/
inductive NamedOffer (lead typed : String) (others : List String) (inner : Completer)
    (context : Context) : String → Prop where
  | lead (starts : Text.startsWith lead typed = true) (short : typed ≠ lead) (last : others = []) :
    NamedOffer lead typed others inner context lead
  /-- The inner argument has seen the token without the lead, or as much of it as is typed. -/
  | inner {adjusted : Cursor} {rest offered : String}
      (stripped : Text.startsWith lead typed = true ∨ typed = lead ++ rest)
      (clean : ∀ c ∈ rest.toList, c ∈ typed.toList)
      (stands : adjusted.remaining = rest :: others)
      (inside : offered ∈ (inner context adjusted).suggestions) :
    NamedOffer lead typed others inner context (lead ++ offered)

theorem offer_of_mem_named {lead : String} {inner : Completer} {context : Context}
    {cursor : Cursor} {suggestion : String}
    (inside : suggestion ∈ (named limit lead inner context cursor).suggestions) :
    ∃ typed others, cursor.remaining = typed :: others ∧
      NamedOffer lead typed others inner context suggestion := by
  unfold named at inside
  split at inside
  next => cases inside
  next typed next =>
    obtain ⟨others, remaining⟩ : ∃ others, cursor.remaining = typed :: others := by
      rw [Cursor.peek_eq_head?_remaining] at next
      exact List.head?_eq_some_iff.mp next
    refine ⟨typed, others, remaining, ?_⟩
    dsimp only at inside
    have ofLead (own : suggestion ∈
        if Text.startsWith lead typed && typed.utf8ByteSize < lead.utf8ByteSize &&
            cursor.remainingCount == 1 then [lead] else []) :
        NamedOffer lead typed others inner context suggestion := by
      split at own
      next typing =>
        simp only [Bool.and_eq_true, beq_iff_eq, decide_eq_true_eq] at typing
        obtain ⟨⟨starts, short⟩, single⟩ := typing
        rw [← Cursor.length_remaining, remaining] at single
        rw [List.mem_singleton.mp own]
        have unfinished : typed ≠ lead := fun same => Nat.lt_irrefl _ (same ▸ short)
        exact .lead starts unfinished (List.eq_nil_of_length_eq_zero (Nat.succ.inj single))
      next => cases own
    split at inside
    next => exact ofLead inside
    next adjusted strip =>
      rcases mem_extend inside with own | more
      · exact ofLead own
      · obtain ⟨offered, answers, rfl⟩ := List.mem_map.mp more
        obtain ⟨token, rest, tokens, stood, cut, stands⟩ := Cursor.remaining_of_stripNext? strip
        obtain ⟨rfl, rfl⟩ := List.cons.inj (remaining.symm.trans stood)
        refine .inner ?_ ?_ stands answers
        · cases starts : Text.startsWith lead typed with
          | true => exact .inl rfl
          | false =>
            right
            apply String.toList_inj.mp
            simpa [starts] using cut
        · intro c inRest
          rw [cut]
          exact List.mem_append_right _ inRest

theorem onlyAtLast_named {lead : String} {inner : Completer} (ofInner : OnlyAtLast inner) :
    OnlyAtLast (named limit lead inner) := by
  intro context cursor several
  apply List.eq_nil_iff_forall_not_mem.mpr
  intro suggestion inside
  obtain ⟨typed, others, remaining, offer⟩ := offer_of_mem_named inside
  rw [← Cursor.length_remaining, remaining] at several
  cases offer with
  | lead _ _ last => simp [last] at several
  | @inner adjusted _ _ _ _ stands answers =>
    have count : adjusted.remainingCount ≠ 1 := by
      rw [← Cursor.length_remaining, stands]
      exact several
    rw [ofInner context adjusted count] at answers
    cases answers

theorem extends_named {lead : String} {inner : Completer} (ofInner : Extends inner)
    (last : OnlyAtLast inner) : Extends (named limit lead inner) := by
  intro context cursor token typing suggestion inside
  obtain ⟨typed, others, remaining, offer⟩ := offer_of_mem_named inside
  obtain ⟨ends, unspaced⟩ := typing
  rw [remaining] at ends unspaced
  cases offer with
  | lead starts _ alone =>
    subst alone
    cases ends
    exact Text.startsIgnoringCase_of_startsWith starts
  | @inner adjusted rest offered stripped clean stands answers =>
    -- With other tokens behind it, the inner argument has nothing to say.
    have alone : others = [] := by
      by_contra more
      have count : adjusted.remainingCount ≠ 1 := by
        rw [← Cursor.length_remaining, stands]
        simpa using more
      rw [last context adjusted count] at answers
      cases answers
    subst alone
    cases ends
    rcases stripped with starts | split
    · exact Text.startsIgnoringCase_append_left _ (Text.startsIgnoringCase_of_startsWith starts)
    · have typing : adjusted.Typing rest := by
        refine ⟨by rw [stands]; rfl, ?_⟩
        rw [stands]
        exact List.forall_mem_singleton.mpr fun spaced =>
          unspaced typed List.mem_cons_self (clean _ spaced)
      rw [split]
      exact Text.startsIgnoringCase_append (ofInner context adjusted rest typing offered answers)

structure Part.Extends (part : Part) : Prop where
  forward : ∀ context (cursor : Cursor), cursor.Reaches (part.read context cursor).cursor
  complete : Completion.Extends part.complete

theorem forall_suggestions_inOrder (stands : Cursor → Prop) {holds : String → Prop}
    {parts : List Part}
    (onward : ∀ part ∈ parts, ∀ context cursor, stands cursor →
      (part.read context cursor).cursor.hasNext = true → stands (part.read context cursor).cursor)
    (ofParts : ∀ part ∈ parts, ∀ context cursor, stands cursor →
      ∀ suggestion ∈ (part.complete context cursor).suggestions, holds suggestion)
    {context : Context} {cursor : Cursor} (here : stands cursor) {found : List String}
    (ofFound : ∀ suggestion ∈ found, holds suggestion) :
    ∀ suggestion ∈ (inOrder limit parts context cursor found).suggestions, holds suggestion := by
  -- What is found first is kept, and a part is asked where the sequence starts or where tokens are
  -- left behind the parts before it.
  induction parts generalizing context cursor found with
  | nil => exact ofFound
  | cons part rest ih =>
    obtain ⟨onwardPart, onwardRest⟩ := List.forall_mem_cons.mp onward
    obtain ⟨ofPart, ofRest⟩ := List.forall_mem_cons.mp ofParts
    have behind := onwardPart context cursor here
    generalize reading : part.read context cursor = made at behind
    have ofMore : ∀ suggestion ∈ extend limit found (part.complete made.context cursor).suggestions,
        holds suggestion := by
      intro suggestion inside
      rcases mem_extend inside with old | own
      · exact ofFound suggestion old
      · exact ofPart _ _ here suggestion own
    unfold inOrder
    simp only [reading]
    split
    · exact ofFound
    · split
      next passed =>
        simp only [Bool.and_eq_true] at passed
        exact ih onwardRest ofRest (behind passed.2) ofFound
      next =>
        split
        · exact ih onwardRest ofRest here ofFound
        · split
          · exact ofMore
          · split
            · exact ih onwardRest ofRest here ofMore
            · exact ofMore

theorem extends_sequence {parts : List Part} (ofParts : ∀ part ∈ parts, part.Extends) :
    Extends (sequence limit parts) := by
  intro context cursor last typing
  refine forall_suggestions_inOrder (·.Typing last)
    (fun part member context cursor typing left => ?_) (fun part member context cursor => ?_)
    typing nofun
  · exact typing.of_reaches ((ofParts part member).forward context cursor) left
  · exact (ofParts part member).complete context cursor last

end

/-- Of what goes on from all tokens, the part that belongs to the last goes on from that. -/
theorem startsIgnoringCase_lastPart {tokens : List String} {last rendered : String}
    (ends : tokens.getLast? = some last)
    (unspaced : ∀ token ∈ tokens, Line.separator ∉ token.toList)
    (starts : Text.startsIgnoringCase rendered (Line.joined tokens) = true) :
    Text.startsIgnoringCase (lastPart tokens.length rendered) last = true := by
  obtain ⟨words, rfl⟩ := List.getLast?_eq_some_iff.mp ends
  rw [Text.startsIgnoringCase_iff, Line.joined, String.toList_ofList, List.map_append,
    List.map_singleton] at starts
  have clean : ∀ word ∈ words.map String.toList, Line.separator ∉ word := by
    rw [List.forall_mem_map]
    exact fun word inside => unspaced word (List.mem_append_left _ inside)
  obtain ⟨part, found, starts⟩ := Line.afterSeparators_of_joined clean starts
  rw [List.length_map] at found
  rw [Text.startsIgnoringCase_iff, lastPart, List.length_append, List.length_singleton,
    Nat.add_sub_cancel, found]
  split
  next single =>
    -- With one token, the whole text is its part.
    rw [Nat.eq_zero_of_le_zero (Nat.le_of_succ_le_succ single)] at found
    rw [Line.afterSeparators] at found
    rw [Option.some.inj found]
    exact starts
  next =>
    rw [String.toList_ofList]
    exact starts

end Completion

variable {σ : Type}

def IdSource.Extends (source : IdSource σ) (input : Input σ) : Prop :=
  ∀ context typed, ∀ id ∈ source.pinned input context typed ++
      source.suggestions input context typed,
    Text.startsIgnoringCase (source.render id) typed = true

theorem Completion.extends_identifier {rules : IdRules σ} {input : Input σ}
    (ofSource : rules.source.Extends input) (inner : Reader) :
    Extends (identifier rules input inner) := by
  intro context cursor last typing suggestion inside
  obtain ⟨id, candidate, -, rfl⟩ := exists_of_mem_identifier inside
  have starts := ofSource context _ id (mem_of_mem_candidates candidate)
  exact startsIgnoringCase_lastPart typing.last typing.unspaced starts

namespace Argument

def spansTokens : Argument σ → Bool
  | .sequence .. => true
  | .objectId .. => true
  | .objectById .. => true
  | _ => false

/-- What an argument needs so that its own suggestions go on from what is typed. -/
def AnswersTyping (input : Input σ) : Argument σ → Prop
  | .recorder .. => False
  | .named inner => ∀ node ∈ inner.nodes, node.spansTokens = false
  | .objectId rules _ => rules.source.Extends input
  | _ => True

def Extendable (input : Input σ) (argument : Argument σ) : Prop :=
  argument.Everywhere (AnswersTyping input)

section

variable {input : Input σ} {argument : Argument σ}

theorem onlyAtLast_complete (answers : argument.Extendable input)
    (single : argument.Everywhere (·.spansTokens = false)) :
    Completion.OnlyAtLast (argument.complete input) := by
  induction argument with
  | literal name word => exact Completion.onlyAtLast_words _
  | boolean label => exact Completion.onlyAtLast_words _
  | recorder name accepted => exact answers.self.elim
  | optional inner ih => exact ih answers.optional single.optional
  | mapped inner mapping ih => exact ih answers.mapped single.mapped
  | named inner ih => exact Completion.onlyAtLast_named (ih answers.named single.named)
  | fallback primary producer ofPrimary ofProducer =>
    apply Completion.onlyAtLast_fallback
    · exact ofPrimary answers.primary single.primary
    · exact ofProducer answers.producer single.producer
  | firstOf label alternatives style ofAlternatives =>
    apply Completion.onlyAtLast_firstOf
    rw [completers_eq_map, List.forall_mem_map]
    intro alternative member
    exact ofAlternatives alternative member (answers.alternative alternative member)
      (single.alternative alternative member)
  | sequence => exact absurd single.self Bool.noConfusion
  | objectId => exact absurd single.self Bool.noConfusion
  | objectById => exact absurd single.self Bool.noConfusion
  | _ => exact fun _ _ _ => rfl

theorem extends_complete (answers : argument.Extendable input) :
    Completion.Extends (argument.complete input) := by
  -- Each suggestion goes on from the last token.
  induction argument with
  | literal name word => exact Completion.extends_words _
  | boolean label => exact Completion.extends_words _
  | recorder name accepted => exact answers.self.elim
  | optional inner ih => exact ih answers.optional
  | mapped inner mapping ih => exact ih answers.mapped
  | named inner ih =>
    have last := onlyAtLast_complete answers.named answers.self
    exact Completion.extends_named (ih answers.named) last
  | fallback primary producer ofPrimary ofProducer =>
    exact Completion.extends_fallback (ofPrimary answers.primary) (ofProducer answers.producer)
  | sequence label parts compute joinsFormats ofParts =>
    apply Completion.extends_sequence
    rw [completionParts_eq_map, List.forall_mem_map]
    intro part member
    constructor
    · exact fun context cursor => (backtracks_read input .storing part context cursor).forward
    · exact ofParts part member (answers.part part member)
  | firstOf label alternatives style ofAlternatives =>
    apply Completion.extends_firstOf
    rw [completers_eq_map, List.forall_mem_map]
    intro alternative member
    exact ofAlternatives alternative member (answers.alternative alternative member)
  | objectId rules inner => exact Completion.extends_identifier answers.self _
  | objectById rules id inner => exact Completion.extends_identifier answers.object.self _
  | _ => exact Completion.extends_nothing

theorem hasNext_of_passed {cursor : Cursor} {reading : Reading}
    (passed : argument.stops? cursor reading = none) : reading.cursor.hasNext = true := by
  unfold stops? at passed
  split at passed
  · split at passed
    · cases passed
    next left => simpa using left
  · cases passed
  · cases passed

theorem forall_suggestions_suggestFrom (stands : Cursor → Prop) {holds : String → Prop}
    {arguments : List (Argument σ)}
    (onward : ∀ argument ∈ arguments, ∀ context cursor, stands cursor →
      (argument.read input .storing context cursor).cursor.hasNext = true →
        stands (argument.read input .storing context cursor).cursor)
    (ofArguments : ∀ argument ∈ arguments, ∀ context cursor, stands cursor →
      ∀ suggestion ∈ (argument.complete input context cursor).suggestions, holds suggestion)
    {context : Context} {cursor : Cursor} (here : stands cursor) {found : List String}
    (ofFound : ∀ suggestion ∈ found, holds suggestion) :
    ∀ suggestion ∈ (suggestFrom input arguments context cursor found).suggestions,
      holds suggestion := by
  -- As in a sequence, an argument is asked where the command starts or where tokens are left
  -- behind the arguments before it.
  induction arguments generalizing context cursor found with
  | nil => exact ofFound
  | cons argument rest ih =>
    obtain ⟨onwardOwn, onwardRest⟩ := List.forall_mem_cons.mp onward
    obtain ⟨ofArgument, ofRest⟩ := List.forall_mem_cons.mp ofArguments
    have behind := onwardOwn context cursor here
    generalize reading : argument.read input .storing context cursor = made at behind
    unfold suggestFrom
    simp only [reading]
    split
    · exact ofFound
    · split
      next passed => exact ih onwardRest ofRest (behind (hasNext_of_passed passed)) ofFound
      next stop _ =>
        have ofMore : ∀ suggestion ∈ Completion.extend input.maxSuggestions found
            (argument.complete input made.context cursor).suggestions, holds suggestion := by
          intro suggestion inside
          rcases Completion.mem_extend inside with old | offered
          · exact ofFound suggestion old
          · exact ofArgument _ _ here suggestion offered
        split
        · exact ofMore
        · exact ih onwardRest ofRest here ofMore

theorem extends_suggestFrom {arguments : List (Argument σ)}
    (answer : ∀ argument ∈ arguments, argument.Extendable input) {context : Context}
    {cursor : Cursor} {last : String} (typing : cursor.Typing last) :
    ∀ suggestion ∈ (suggestFrom input arguments context cursor []).suggestions,
      Text.startsIgnoringCase suggestion last = true := by
  refine forall_suggestions_suggestFrom (·.Typing last)
    (fun argument _ context cursor typing left => ?_) (fun argument member context cursor => ?_)
    typing nofun
  · exact typing.of_reaches (backtracks_read input .storing argument context cursor).forward left
  · exact extends_complete (answer argument member) context cursor last

end

end Argument

theorem Stock.Listing.extends_source {listing : Stock.Listing}
    (leads : listing.matching = .leading ∨ listing.matching = .leadingIgnoringCase)
    (input : Input Stock.Profile) : listing.source.Extends input := by
  intro context typed id offered
  have holds : listing.matching.holds (listing.rendering.apply id) typed = true := by
    rcases List.mem_append.mp offered with pinned | regular
    · exact (List.mem_filter.mp pinned).2
    · exact (List.mem_filter.mp regular).2
  rcases leads with plain | folded
  · rw [plain] at holds
    exact Text.startsIgnoringCase_of_startsWith holds
  · rw [folded] at holds
    exact holds

namespace Command

/-- Every suggestion for a line goes on from its last token, and every suggestion of an argument
from the last of the tokens that remain. -/
theorem complete_extends_typed (input : Input σ) :
    (∀ command : Command σ, (∀ argument ∈ command.arguments, argument.Extendable input) →
      ∀ line, ∀ suggestion ∈ (command.completeLine input line).suggestions,
        Text.startsIgnoringCase suggestion
          ((Line.partialTokens line).getLast (Line.partialTokens_ne_nil line)) = true) ∧
    ∀ argument : Argument σ, argument.Extendable input →
      ∀ context (cursor : Cursor) (left : cursor.remaining ≠ []),
        (∀ token ∈ cursor.remaining, Line.separator ∉ token.toList) →
        ∀ suggestion ∈ (argument.complete input context cursor).suggestions,
          Text.startsIgnoringCase suggestion (cursor.remaining.getLast left) = true := by
  constructor
  · intro command answer line
    have typing : (Cursor.ofPartialLine line).Typing
        ((Line.partialTokens line).getLast (Line.partialTokens_ne_nil line)) :=
      ⟨List.getLast?_eq_some_getLast _,
        fun token inside => Line.separator_not_mem_of_mem_partialTokens inside⟩
    exact Argument.extends_suggestFrom answer typing
  · intro argument answers context cursor left unspaced
    exact Argument.extends_complete answers context cursor _
      ⟨List.getLast?_eq_some_getLast left, unspaced⟩

def items : Stock.Listing where
  ids := [.text "rotten apple", .text "rotten egg", .text "pear"]
  matching := .leadingIgnoringCase
  rendering := .plain
  pinned := []
  pinnedField := none

def sell : Command Stock.Profile where
  arguments :=
    [.literal "sell" "sell", .named (.boolean ⟨"gift", none⟩),
      .objectId ⟨⟨"item", none⟩, items.source, .any, 0⟩ (.text ⟨"item", none⟩ true)]
  distinct := by decide

theorem extendable_sell : ∀ argument ∈ sell.arguments, argument.Extendable ⟨.empty, 20⟩ := by
  have ofItems : items.source.Extends ⟨.empty, 20⟩ := Stock.Listing.extends_source (.inr rfl) _
  simp [sell, Argument.Extendable, Argument.Everywhere, Argument.nodes, Argument.AnswersTyping,
    Argument.spansTokens, ofItems]

/-- Of a name of two words the second one is offered behind the first, and of a named argument the
lead while it is typed. -/
theorem complete_sell_extends_typed :
    (∀ argument ∈ sell.arguments, argument.Extendable ⟨.empty, 20⟩) ∧
      (sell.completeLine ⟨.empty, 20⟩ "sell gift=yes Rotten A").suggestions = ["apple"] ∧
      Text.startsIgnoringCase "apple" "A" = true ∧
      let gift := Argument.named (σ := Stock.Profile) (.boolean ⟨"gift", none⟩)
      (gift.complete ⟨.empty, 20⟩ .empty (.ofList ["gi"])).suggestions =
          ["gift=", "gift=true", "gift=false"] ∧
        Text.startsIgnoringCase "gift=true" "gi" = true := by
  have answer := extendable_sell
  have offers : (sell.completeLine ⟨.empty, 20⟩ "sell gift=yes Rotten A").suggestions =
      ["apple"] := by decide +kernel
  obtain ⟨ofLine, ofTokens⟩ := complete_extends_typed (σ := Stock.Profile) ⟨.empty, 20⟩
  refine ⟨answer, offers, ?_, by decide +kernel, ?_⟩
  · exact ofLine sell answer "sell gift=yes Rotten A" "apple" (offers ▸ List.mem_singleton_self _)
  · have unspaced : ∀ token ∈ (Cursor.ofList ["gi"]).remaining,
        Line.separator ∉ token.toList := by decide
    have answers := answer (.named (.boolean ⟨"gift", none⟩)) (by simp [sell])
    exact ofTokens _ answers .empty (.ofList ["gi"]) (by decide) unspaced "gift=true"
      (by decide +kernel)

end Command

end CommandLine
