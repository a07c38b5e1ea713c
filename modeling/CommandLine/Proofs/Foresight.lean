import CommandLine.Command.Complete
import CommandLine.Proofs.Mirroring

/-! No argument looks behind the cursor.

With everything in full sight, contexts that are alike are the same one. What an
argument comes to then depends on the tokens in front of the cursor, and so do
the tokens that it takes, what it suggests, and what becomes of a command.
-/

set_option autoImplicit false

namespace CommandLine

def Cursor.KeepPace (left left' right right' : Cursor) : Prop :=
  ∃ count, left'.position = left.position + count ∧ right'.position = right.position + count ∧
    left'.tokens = left.tokens ∧ right'.tokens = right.tokens

theorem Cursor.Level.keepPace {left left' right right' : Cursor} (level : left.Level right)
    (ofLeft : left.Reaches left') (ofRight : right.Reaches right') (after : left'.Level right') :
    Cursor.KeepPace left left' right right' := by
  have advance := level.advance ofLeft ofRight after
  have forward := ofLeft.forward
  have forward' := ofRight.forward
  exact ⟨left'.position - left.position, by omega, by omega, ofLeft.tokens, ofRight.tokens⟩

theorem Reading.Alike.outcome_eq {left right : Reading} (h : left.Alike .full right) :
    left.outcome = right.outcome :=
  h.outcome.eq Sight.Failures.eq fun same => rel_eq same Sight.Values.eq

theorem Resolution.Alike.outcome_eq {left right : Resolution} (h : left.Alike .full right) :
    left.outcome = right.outcome :=
  h.outcome.eq Sight.Errors.eq fun same => rel_eq same Sight.Values.eq

structure Completion.Agrees (left right : Completion) : Prop where
  suggestions : left.suggestions = right.suggestions
  cursor : left.cursor.Level right.cursor

theorem Completion.Agrees.after {left right : Completion} (h : left.Agrees right)
    (earlier earlier' : List Event) : (left.after earlier).Agrees (right.after earlier') :=
  ⟨h.suggestions, h.cursor⟩

/-- Never moves the cursor back, nor looks behind it. -/
structure Reader.LooksAhead (reader : Reader) : Prop where
  forward : ∀ context (cursor : Cursor), cursor.Reaches (reader context cursor).cursor
  overlooks : reader.Overlooks .full

structure Completer.LooksAhead (completer : Completer) : Prop where
  forward : ∀ context (cursor : Cursor), cursor.Reaches (completer context cursor).cursor
  agrees : ∀ context {cursor cursor'}, cursor.Level cursor' →
    (completer context cursor).Agrees (completer context cursor')

theorem Reader.LooksAhead.read {reader : Reader} (h : reader.LooksAhead) (context : Context)
    {cursor cursor' : Cursor} (level : cursor.Level cursor') :
    Reading.Alike .full (reader context cursor) (reader context cursor') :=
  h.overlooks rfl level

namespace Completion

theorem looksAhead_nothing : Completer.LooksAhead nothing where
  forward _ cursor := .refl cursor
  agrees _ _ _ level := ⟨rfl, level⟩

theorem looksAhead_always (word : String) : Completer.LooksAhead (always word) where
  forward _ cursor := .refl cursor
  agrees _ _ _ level := ⟨rfl, level⟩

theorem looksAhead_words (candidates : List String) : Completer.LooksAhead (words candidates) where
  forward context cursor := by
    unfold words
    split <;> exact .refl cursor
  agrees context cursor cursor' level := by
    unfold words
    rw [level.finalToken]
    split <;> exact ⟨rfl, level⟩

theorem looksAhead_named (limit : Nat) (lead : String) {inner : Completer}
    (ofInner : inner.LooksAhead) : Completer.LooksAhead (named limit lead inner) where
  forward context cursor := by
    unfold named
    dsimp only
    split
    next => exact .refl cursor
    next =>
      split
      next => exact .refl cursor
      next adjusted strip =>
        obtain ⟨position, -⟩ := Cursor.position_of_stripNext? strip
        have ahead := (ofInner.forward context adjusted).forward
        exact ⟨rfl, Nat.le_min.mpr ⟨position ▸ ahead, cursor.position_le⟩⟩
  agrees context cursor cursor' level := by
    unfold named
    dsimp only
    rw [level.peek, level.remainingCount]
    split
    next => exact ⟨rfl, level⟩
    next typed _ =>
      generalize (if Text.startsWith lead typed then typed else lead) = taken
      rcases level.stripNext?_cases taken with
        ⟨strip, strip'⟩ | ⟨adjusted, adjusted', strip, strip', copies⟩
      · rw [strip, strip']
        exact ⟨rfl, level⟩
      · rw [strip, strip']
        have offered := ofInner.agrees context copies
        refine ⟨?_, level.restore strip strip' copies (ofInner.forward ..) (ofInner.forward ..)
          offered.cursor⟩
        simp only [offered.suggestions]

theorem looksAhead_fallback (limit : Nat) {primary producer : Completer}
    (ofPrimary : primary.LooksAhead) (ofProducer : producer.LooksAhead) :
    Completer.LooksAhead (fallback limit primary producer) where
  forward context cursor := by
    unfold fallback
    dsimp only
    split
    · exact ofPrimary.forward context cursor
    · exact ofProducer.forward context cursor
  agrees context cursor cursor' level := by
    have first := ofPrimary.agrees context level
    have second := ofProducer.agrees context level
    unfold fallback
    dsimp only
    rw [first.suggestions, second.suggestions]
    split
    · exact ⟨rfl, first.cursor⟩
    · exact ⟨rfl, second.cursor⟩

theorem reaches_firstFrom (limit : Nat) (context : Context) {start cursor : Cursor}
    {alternatives : List Completer}
    (ofAlternatives : ∀ alternative ∈ alternatives, alternative.LooksAhead)
    (ahead : start.Reaches cursor) (found : List String) :
    start.Reaches (firstFrom limit context start alternatives cursor found).cursor := by
  induction alternatives generalizing cursor found with
  | nil => exact ahead
  | cons alternative rest ih =>
    obtain ⟨first, others⟩ := List.forall_mem_cons.mp ofAlternatives
    have forward := first.forward context start
    unfold firstFrom
    dsimp only
    split
    · exact forward
    · exact ih others forward _

theorem agrees_firstFrom (limit : Nat) (context : Context) {start start' cursor cursor' : Cursor}
    {alternatives : List Completer}
    (ofAlternatives : ∀ alternative ∈ alternatives, alternative.LooksAhead)
    (back : start.Level start') (level : cursor.Level cursor') (found : List String) :
    (firstFrom limit context start alternatives cursor found).Agrees
      (firstFrom limit context start' alternatives cursor' found) := by
  induction alternatives generalizing cursor cursor' found with
  | nil => exact ⟨rfl, level⟩
  | cons alternative rest ih =>
    obtain ⟨first, others⟩ := List.forall_mem_cons.mp ofAlternatives
    have offered := first.agrees context back
    unfold firstFrom
    dsimp only
    rw [offered.suggestions]
    split
    · exact ⟨rfl, offered.cursor⟩
    · exact (ih others offered.cursor _).after _ _

theorem looksAhead_firstOf (limit : Nat) {alternatives : List Completer}
    (ofAlternatives : ∀ alternative ∈ alternatives, alternative.LooksAhead) :
    Completer.LooksAhead (firstOf limit alternatives) where
  forward context cursor := reaches_firstFrom limit context ofAlternatives (.refl cursor) []
  agrees context _ _ level := agrees_firstFrom limit context ofAlternatives level level []

structure Part.LooksAhead (part : Part) : Prop where
  read : part.read.LooksAhead
  complete : part.complete.LooksAhead

theorem reaches_inOrder (limit : Nat) {parts : List Part}
    (ofParts : ∀ part ∈ parts, part.LooksAhead) (context : Context) (cursor : Cursor)
    (found : List String) :
    cursor.Reaches (inOrder limit parts context cursor found).cursor := by
  induction parts generalizing context cursor found with
  | nil => exact .refl cursor
  | cons part rest ih =>
    obtain ⟨first, others⟩ := List.forall_mem_cons.mp ofParts
    unfold inOrder
    dsimp only
    split
    · exact .refl cursor
    · split
      · exact (first.read.forward context cursor).trans (ih others ..)
      · split
        · exact ih others ..
        · split
          · exact .refl cursor
          · split
            · exact ih others ..
            · exact .refl cursor

theorem agrees_inOrder (limit : Nat) {parts : List Part}
    (ofParts : ∀ part ∈ parts, part.LooksAhead) (context : Context) {cursor cursor' : Cursor}
    (level : cursor.Level cursor') (found : List String) :
    (inOrder limit parts context cursor found).Agrees
      (inOrder limit parts context cursor' found) := by
  -- The parts are read and asked at cursors that stay level.
  induction parts generalizing context cursor cursor' found with
  | nil => exact ⟨rfl, level⟩
  | cons part rest ih =>
    obtain ⟨first, others⟩ := List.forall_mem_cons.mp ofParts
    have read := first.read.read context level
    have offered := first.complete.agrees (part.read context cursor').context level
    unfold inOrder
    dsimp only
    rw [read.outcome_eq, read.cursor.remainingCount, read.cursor.hasNext, read.context.eq,
      level.remainingCount, level.hasNext, offered.suggestions]
    split
    · exact ⟨rfl, level⟩
    · split
      · exact (ih others _ read.cursor _).after _ _
      · split
        · exact (ih others _ level _).after _ _
        · split
          · exact ⟨rfl, level⟩
          · split
            · exact (ih others _ level _).after _ _
            · exact ⟨rfl, level⟩

theorem looksAhead_sequence (limit : Nat) {parts : List Part}
    (ofParts : ∀ part ∈ parts, part.LooksAhead) : Completer.LooksAhead (sequence limit parts) where
  forward context cursor := reaches_inOrder limit ofParts context cursor []
  agrees context _ _ level := agrees_inOrder limit ofParts context level []

theorem looksAhead_identifier {σ : Type} (rules : IdRules σ) (input : Input σ) {inner : Reader}
    (ofInner : inner.LooksAhead) : Completer.LooksAhead (identifier rules input inner) where
  forward context cursor := by
    unfold identifier
    dsimp only
    split
    · exact .refl cursor
    · split <;> exact ofInner.forward context cursor
  agrees context cursor cursor' level := by
    have read := ofInner.read context level
    unfold identifier
    dsimp only
    rw [read.outcome_eq, read.cursor.hasNext, level.hasNext,
      show cursor.remaining = cursor'.remaining from level]
    split
    · exact ⟨rfl, level⟩
    · split <;> exact ⟨rfl, read.cursor⟩

end Completion

variable {σ : Type}

namespace Argument

theorem looksAhead_read (input : Input σ) (mode : Mode) (argument : Argument σ) :
    (argument.read input mode).LooksAhead where
  forward context cursor := (backtracks_read input mode argument context cursor).forward
  overlooks := overlooks_read mode fun node _ => node.impartial_full input

theorem overlooks_resolve_full (input : Input σ) (argument : Argument σ) :
    (argument.resolve input).Overlooks .full :=
  overlooks_resolve fun node _ => node.impartial_full input

theorem looksAhead_complete (input : Input σ) (argument : Argument σ) :
    Completer.LooksAhead (argument.complete input) := by
  induction argument with
  | literal name word => exact Completion.looksAhead_words _
  | boolean label => exact Completion.looksAhead_words _
  | recorder name accepted => exact Completion.looksAhead_always _
  | optional inner ih => exact ih
  | named inner ih => exact Completion.looksAhead_named _ _ ih
  | mapped inner mapping ih => exact ih
  | fallback primary producer ofPrimary ofProducer =>
    exact Completion.looksAhead_fallback _ ofPrimary ofProducer
  | sequence label parts compute joinsFormats ofParts =>
    refine Completion.looksAhead_sequence _ ?_
    rw [completionParts_eq_map]
    exact List.forall_mem_map.mpr fun part member =>
      ⟨part.looksAhead_read input .storing, ofParts part member⟩
  | firstOf label alternatives style ofAlternatives =>
    refine Completion.looksAhead_firstOf _ ?_
    rw [completers_eq_map]
    exact List.forall_mem_map.mpr ofAlternatives
  | objectId rules inner _ =>
    exact Completion.looksAhead_identifier rules input (inner.looksAhead_read input .viewing)
  | objectById rules id inner _ =>
    exact Completion.looksAhead_identifier id input (inner.looksAhead_read input .viewing)
  | _ => exact Completion.looksAhead_nothing

theorem agrees_suggestFrom (input : Input σ) (arguments : List (Argument σ)) (context : Context)
    {cursor cursor' : Cursor} (level : cursor.Level cursor') (found : List String) :
    (suggestFrom input arguments context cursor found).Agrees
      (suggestFrom input arguments context cursor' found) := by
  induction arguments generalizing context cursor cursor' found with
  | nil => exact ⟨rfl, level⟩
  | cons argument rest ih =>
    have read := (argument.looksAhead_read input .storing).read context level
    have offered := (argument.looksAhead_complete input).agrees
      (argument.read input .storing context cursor').context level
    have stops : argument.stops? cursor (argument.read input .storing context cursor) =
        argument.stops? cursor' (argument.read input .storing context cursor') := by
      unfold stops?
      rw [read.outcome_eq, read.cursor.hasNext, read.cursor.remainingCount, level.remainingCount]
    unfold suggestFrom
    dsimp only
    rw [level.hasNext, stops, read.context.eq, offered.suggestions]
    split
    · exact ⟨rfl, level⟩
    · split
      · exact (ih _ read.cursor _).after _ _
      · split
        · exact ⟨rfl, level⟩
        · exact (ih _ level _).after _ _

end Argument

namespace Command

theorem settle_eq_of_alike (command : Command σ) {left right : Exploration}
    (same : left.Alike .full right) : command.settle left = command.settle right := by
  unfold settle leftover?
  cases same with
  | failed ofLeft ofRight causes => rw [ofLeft, ofRight, causes.eq]
  | done _ ending contexts level => rw [ending, contexts.eq, level.peek]

/-- What stands behind the cursor makes no difference: with the same tokens in front of them, two
cursors lead any argument to the same outcome, the same context and the same number of tokens, in
whatever way it is called, and any command to the same result. -/
theorem parse_looks_ahead (input : Input σ) (left right : Cursor)
    (level : left.remaining = right.remaining) :
    (∀ (argument : Argument σ) (context : Context),
      (∀ mode, let first := argument.read input mode context left
        let second := argument.read input mode context right
        first.outcome = second.outcome ∧ first.context = second.context ∧
          Cursor.KeepPace left first.cursor right second.cursor) ∧
      (∀ signal parsingFailed, let first := argument.resolve input context left signal parsingFailed
        let second := argument.resolve input context right signal parsingFailed
        first.outcome = second.outcome ∧ first.context = second.context ∧
          Cursor.KeepPace left first.cursor right second.cursor) ∧
      let first := argument.complete input context left
      let second := argument.complete input context right
      first.suggestions = second.suggestions ∧
        Cursor.KeepPace left first.cursor right second.cursor) ∧
    ∀ command : Command σ,
      (command.parse input left).result = (command.parse input right).result ∧
        (command.complete input left).suggestions = (command.complete input right).suggestions := by
  constructor
  · intro argument context
    refine ⟨fun mode => ?_, fun signal parsingFailed => ?_, ?_⟩
    · have reads := argument.looksAhead_read input mode
      have read := reads.read context level
      exact ⟨read.outcome_eq, read.context.eq,
        Cursor.Level.keepPace level (reads.forward ..) (reads.forward ..) read.cursor⟩
    · have keeps := argument.alwaysKeeps_resolve input
      have resolved := argument.overlooks_resolve_full input parsingFailed
        (rfl : Sight.full.Contexts context context) level (rfl : Sight.full.Signals signal signal)
      exact ⟨resolved.outcome_eq, resolved.context.eq,
        Cursor.Level.keepPace level (keeps ..).forward (keeps ..).forward resolved.cursor⟩
    · have completes := argument.looksAhead_complete input
      have offered := completes.agrees context level
      exact ⟨offered.suggestions,
        Cursor.Level.keepPace level (completes.forward ..) (completes.forward ..) offered.cursor⟩
  · intro command
    refine ⟨?_, (Argument.agrees_suggestFrom input _ _ level []).suggestions⟩
    have impartial : ∀ argument ∈ command.arguments,
        argument.Everywhere (·.Impartial .full input) :=
      fun _ _ node _ => node.impartial_full input
    have steps := (Interchangeable.nil (.refl .full)).append (.refl _) impartial
    rw [List.append_nil] at steps
    exact command.settle_eq_of_alike (steps.explore 0 0 rfl level)

def buy : Command Unit where
  arguments :=
    [.text ⟨"item", none⟩ false,
      .orDefault (.integer ⟨"count", none⟩ ⟨true, 32, false⟩) (.integer ⟨true, 32, false⟩ 1)]
  distinct := by decide

def buyBehind : Cursor :=
  ⟨["shop", "buy", "apple", "7"], 2, by decide⟩

/-- What was read before the item does not count. -/
theorem parse_looks_ahead_buy :
    buyBehind.remaining = (Cursor.ofList ["apple", "7"]).remaining ∧
      (buy.parse ⟨(), 20⟩ buyBehind).result =
        (buy.parse ⟨(), 20⟩ (.ofList ["apple", "7"])).result ∧
      Cursor.KeepPace buyBehind
        ((Argument.text ⟨"item", none⟩ false).read ⟨(), 20⟩ .storing .empty buyBehind).cursor
        (.ofList ["apple", "7"])
        ((Argument.text ⟨"item", none⟩ false).read ⟨(), 20⟩ .storing .empty
          (.ofList ["apple", "7"])).cursor ∧
      ∃ context, (buy.parse ⟨(), 20⟩ (.ofList ["apple", "7"])).result = .ok context ∧
        context.entries = [("item", .text "apple"), ("count", .integer ⟨true, 32, false⟩ 7)] := by
  have law := parse_looks_ahead ⟨(), 20⟩ buyBehind (.ofList ["apple", "7"]) rfl
  exact ⟨rfl, (law.2 buy).1, ((law.1 _ .empty).1 .storing).2.2, _, rfl, rfl⟩

end Command

end CommandLine
