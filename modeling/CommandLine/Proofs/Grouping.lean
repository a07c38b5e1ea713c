import CommandLine.Proofs.Leftover
import CommandLine.Proofs.Mirroring

/-! Grouping arguments in a sequence.

A sequence of arguments that decide at once is read as they are one after
another: it fails with the same error, takes the same tokens and stores the same
entries, and its own one on top. What stands behind it may notice that entry, so
the comparison goes on through a sight that hides it.
-/

set_option autoImplicit false

namespace CommandLine

namespace Usage

theorem intercalate_intercalate (delimiter : String) {inner : List String} (nonempty : inner ≠ [])
    (rest : List String) :
    delimiter.intercalate (delimiter.intercalate inner :: rest) =
      delimiter.intercalate (inner ++ rest) := by
  by_cases last : rest = []
  · rw [last, String.intercalate_singleton, List.append_nil]
  · rw [String.intercalate_cons_of_ne_nil last,
      String.intercalate_append_of_ne_nil nonempty last]

theorem joined_eq_empty_iff (delimiter : String) (formats : List String) :
    joined delimiter formats = "" ↔ formats.filter (!·.isEmpty) = [] := by
  unfold joined
  cases shown : formats.filter (!·.isEmpty) with
  | nil => simp
  | cons first rest =>
    have inside : first ∈ formats.filter (!·.isEmpty) := shown ▸ List.mem_cons_self
    have nonempty : first ≠ "" := by simpa using (List.mem_filter.mp inside).2
    cases rest <;> simp [nonempty]

theorem joined_joined (delimiter : String) (before inner behind : List String) :
    joined delimiter (before ++ joined delimiter inner :: behind) =
      joined delimiter (before ++ inner ++ behind) := by
  by_cases hidden : joined delimiter inner = ""
  · have nothing := (joined_eq_empty_iff delimiter inner).mp hidden
    simp [joined, nothing]
  · have something := mt (joined_eq_empty_iff delimiter inner).mpr hidden
    have kept : (joined delimiter inner :: behind).filter (!·.isEmpty) =
        joined delimiter inner :: behind.filter (!·.isEmpty) :=
      List.filter_cons_of_pos (by simpa using hidden)
    rw [joined, List.filter_append, kept, joined, joined, List.filter_append, List.filter_append,
      List.append_assoc]
    by_cases first : before.filter (!·.isEmpty) = []
    · rw [first, List.nil_append, List.nil_append, intercalate_intercalate _ something]
    · rw [String.intercalate_append_of_ne_nil first (List.cons_ne_nil _ _),
        String.intercalate_append_of_ne_nil first (by simp [something]),
        intercalate_intercalate _ something]

end Usage

namespace Argument

variable {σ : Type}

def group (label : Label) (parts : List (Argument σ)) : Argument σ :=
  .sequence label parts (fun context => .ok (.ofContext context)) true

theorem impartial_group (name : String) (input : Input σ) (label : Label)
    (parts : List (Argument σ)) : (group label parts).Impartial (.throughout name) input := by
  intro context context' contexts
  refine .ok ?_
  have entries := congrArg Table.entries contexts
  show Value.without name (.context context.entries) =
    Value.without name (.context context'.entries)
  rw [Value.without, Value.without, Value.withoutEntries_eq, Value.withoutEntries_eq]
  exact congrArg Value.context entries

theorem read_group (input : Input σ) (label : Label) (parts : List (Argument σ))
    (context : Context) (cursor : Cursor) :
    let done := readAll input parts context cursor
    let reading := (group label parts).read input .storing context cursor
    (∃ cause, done.outcome = .error cause ∧ reading.outcome = .error (.error cause)) ∨
      ∃ value, done.outcome = .ok () ∧ reading.outcome = .ok (some value) ∧
        reading.context = done.context.put label.name value ∧ reading.cursor = done.cursor := by
  intro done reading
  have ofReaders := backtracks_readers fun part (_ : part ∈ parts) =>
    backtracks_read input .storing part
  have merged : context.merge done.context = done.context :=
    (Reading.inOrder_reaches ofReaders context cursor).2.merge_eq
  have reads : reading = Reading.sequence .storing label.name
    (fun context => .ok (.ofContext context)) (readers input .storing parts) context cursor := rfl
  cases came : done.outcome with
  | error cause =>
    change (Reading.inOrder _ context cursor).outcome = _ at came
    refine .inl ⟨cause, rfl, ?_⟩
    simp only [reads, Reading.sequence, came]
  | ok =>
    change (Reading.inOrder _ context cursor).outcome = _ at came
    refine .inr ⟨.ofContext done.context, rfl, ?_⟩
    simp only [reads, Reading.sequence, came]
    exact ⟨rfl, congrArg (Table.put · label.name _) merged, rfl⟩

theorem alike_readAll (input : Input σ) (arguments : List (Argument σ)) (context : Context)
    {cursor cursor' : Cursor} (level : cursor.Level cursor') :
    (readAll input arguments context cursor).Alike .full Sight.full.Errors Eq
      (readAll input arguments context cursor') :=
  Reading.alike_inOrder
    (overlooks_readers fun _ _ => overlooks_read .storing fun node _ =>
      node.impartial_full input) rfl level

/-- Behind the same arguments it makes no difference to a sight that does not see the entry of a
group whether the members stand in the group or on their own. -/
theorem interchangeable_group {sight : Sight} {post : List Step}
    (h : Interchangeable sight sight post post) {label : Label}
    (hidden : sight.hides label.name = true) {parts : List (Argument σ)} (nonempty : parts ≠ [])
    (steady : ∀ part ∈ parts, part.isFallback = false) (input : Input σ) :
    Interchangeable .full sight ((group label parts).step input :: post)
      (parts.map (·.step input) ++ post) where
  isEmpty := by
    cases parts with
    | nil => exact absurd rfl nonempty
    | cons => rfl
  explore index index' context context' cursor cursor' contexts level := by
    -- Up to the group nothing differs, so that its members see what they see on their own.
    cases contexts.eq
    have same := alike_readAll input parts context level
    have outcome := same.outcome.eq Sight.Errors.eq id
    rcases read_group input label parts context cursor with
      ⟨cause, failed, came⟩ | ⟨value, done, came, stored, stands⟩
    · rw [outcome] at failed
      rw [explore_of_failed came]
      exact .failed rfl (ending_explore_of_failed steady index' post failed) rfl
    · rw [outcome] at done
      obtain ⟨visits, flat⟩ := explore_of_readAll steady index' post done
      rw [explore_of_read came, flat]
      refine (h.explore _ _ ?_ ?_).after _ _
      · show sight.see ((group label parts).read input .storing context cursor).context = _
        rw [stored, Sight.see_put, if_pos hidden, same.context.eq]
      · show ((group label parts).read input .storing context cursor).cursor.Level _
        rw [stands]
        exact same.cursor

end Argument

namespace Command

open Argument (group)

variable {σ : Type} {sight : Sight} {input : Input σ} {cursor : Cursor}

/-- Both commands succeed with contexts that are alike, fail as both leave the same token, or fail
with errors that are alike. -/
inductive EndAlike (sight : Sight) (input : Input σ) (left right : Command σ) (cursor : Cursor) :
    Prop where
  | parsed {context context' : Context} (ofLeft : (left.parse input cursor).result = .ok context)
      (ofRight : (right.parse input cursor).result = .ok context')
      (same : sight.see context = sight.see context')
  | left {token : String} {cause cause' : ArgumentError}
      (ofLeft : (left.parse input cursor).result = .error cause)
      (ofRight : (right.parse input cursor).result = .error cause')
      (leftByLeft : left.Leaves input cursor token) (leftByRight : right.Leaves input cursor token)
  | failed {cause cause' : ArgumentError} (ofLeft : (left.parse input cursor).result = .error cause)
      (ofRight : (right.parse input cursor).result = .error cause')
      (same : sight.error cause = sight.error cause')

theorem endAlike_of_alike {left right : Command σ}
    (same : (explore 0 (left.arguments.map (·.step input)) .empty cursor).Alike sight
      (explore 0 (right.arguments.map (·.step input)) .empty cursor)) :
    EndAlike sight input left right cursor := by
  cases same with
  | failed ofLeft ofRight causes =>
    refine .failed ?_ ?_ causes
    · rw [result_parse, settle, ofLeft]
    · rw [result_parse, settle, ofRight]
  | done unfailed ending contexts level =>
    have unfailed' := ending ▸ unfailed
    cases next : (explore 0 (left.arguments.map (·.step input)) .empty cursor).cursor.peek with
    | some token =>
      have leaves : left.Leaves input cursor token := ⟨unfailed, next⟩
      have leaves' : right.Leaves input cursor token := ⟨unfailed', level.peek.symm.trans next⟩
      exact .left (result_of_leaves leaves) (result_of_leaves leaves') leaves leaves'
    | none =>
      have finished : (explore 0 (left.arguments.map (·.step input)) .empty cursor).cursor.hasNext =
          false := by
        simpa [Cursor.peek, Cursor.hasNext] using next
      refine .parsed ?_ ?_ contexts
      · rw [result_parse, settle_of_done unfailed finished]
      · rw [result_parse, settle_of_done unfailed' (level.hasNext.symm.trans finished)]

theorem has_of_outside {command : Command σ} {name : String}
    (outside : ∀ argument ∈ command.arguments, name ∉ argument.nodeNames) {context : Context}
    (parsed : (command.parse input cursor).result = .ok context) : context.has name = false := by
  obtain ⟨-, rfl⟩ := unfailed_of_result parsed
  have explores := explores_explore 0 (command.arguments.map (·.step input)) .empty cursor
  refine explores.spares ?_ rfl
  exact List.forall_mem_map.mpr fun argument member => argument.spares_step input (outside _ member)

section

variable {grouped flat : Command σ} {pre parts post : List (Argument σ)} {label : Label}

theorem usage_grouped (ofGrouped : grouped.arguments = pre ++ group label parts :: post)
    (ofFlat : flat.arguments = pre ++ parts ++ post) : grouped.usage = flat.usage := by
  have format : (group label parts).format = Usage.joined " " (parts.map (·.format)) := by
    show Usage.joined " " ((Argument.infos parts).map (·.format)) = _
    rw [Argument.infos_eq_map, List.map_map]
    rfl
  rw [usage, usage, ofGrouped, ofFlat, List.map_append, List.map_append, List.map_append,
    List.map_cons, format, Usage.joined_joined]

theorem endAlike_grouped (ofGrouped : grouped.arguments = pre ++ group label parts :: post)
    (ofFlat : flat.arguments = pre ++ parts ++ post) (nonempty : parts ≠ [])
    (steady : ∀ part ∈ parts, part.isFallback = false)
    (hidden : sight.hides label.name = true)
    (impartial : ∀ argument ∈ post, argument.Everywhere (·.Impartial sight input))
    (cursor : Cursor) : EndAlike sight input grouped flat cursor := by
  apply endAlike_of_alike
  have behind := (Interchangeable.nil (.refl sight)).append (.refl sight) impartial
  rw [List.append_nil] at behind
  have whole := (Argument.interchangeable_group behind hidden nonempty steady input).append
    (Sight.finer_full sight) fun argument (_ : argument ∈ pre) node _ => node.impartial_full input
  rw [ofGrouped, ofFlat, List.append_assoc, List.map_append, List.map_append, List.map_append,
    List.map_cons]
  exact whole.explore 0 0 rfl (.refl cursor)

end

/-- Arguments that decide at once may stand in a group or on their own: the usage stays the same,
and so do the errors, the tokens that are left and all that is stored, but for the entry of the
group. A group behind it has that entry in its own value; whoever else stands behind it must not
make a difference of that. Where nobody does, the entry itself is all that differs. -/
theorem parse_grouped (grouped flat : Command σ) (pre parts post : List (Argument σ))
    (label : Label) (ofGrouped : grouped.arguments = pre ++ group label parts :: post)
    (ofFlat : flat.arguments = pre ++ parts ++ post) (nonempty : parts ≠ [])
    (steady : ∀ part ∈ parts, part.isFallback = false) (input : Input σ) (cursor : Cursor) :
    grouped.usage = flat.usage ∧
      ((∀ argument ∈ post, argument.Everywhere (·.Impartial (.throughout label.name) input)) →
        EndAlike (.throughout label.name) input grouped flat cursor) ∧
      ((∀ argument ∈ post, argument.Everywhere (·.Impartial (.except label.name) input)) →
        EndAlike (.except label.name) input grouped flat cursor) ∧
      ((∀ argument ∈ flat.arguments, label.name ∉ argument.nodeNames) →
        ∀ context, (flat.parse input cursor).result = .ok context →
          context.has label.name = false) := by
  refine ⟨usage_grouped ofGrouped ofFlat, fun impartial => ?_, fun impartial => ?_,
    fun outside context => has_of_outside outside⟩
  · exact endAlike_grouped ofGrouped ofFlat nonempty steady (decide_eq_true rfl) impartial cursor
  · exact endAlike_grouped ofGrouped ofFlat nonempty steady (decide_eq_true rfl) impartial cursor

def placing : Command Unit where
  arguments :=
    [group ⟨"across", none⟩ [.integer ⟨"x", none⟩ ⟨true, 32, false⟩],
      group ⟨"along", none⟩ [.integer ⟨"y", none⟩ ⟨true, 32, false⟩]]
  distinct := by decide

def placingFlat : Command Unit where
  arguments :=
    [.integer ⟨"x", none⟩ ⟨true, 32, false⟩,
      group ⟨"along", none⟩ [.integer ⟨"y", none⟩ ⟨true, 32, false⟩]]
  distinct := by decide

def marking : Command Unit where
  arguments :=
    [group ⟨"at", none⟩
        [.integer ⟨"x", none⟩ ⟨true, 32, false⟩, .integer ⟨"y", none⟩ ⟨true, 32, false⟩],
      .orDefault (.integer ⟨"radius", none⟩ ⟨false, 32, false⟩) (.integer ⟨false, 32, false⟩ 1)]
  distinct := by decide

def markingFlat : Command Unit where
  arguments :=
    [.integer ⟨"x", none⟩ ⟨true, 32, false⟩, .integer ⟨"y", none⟩ ⟨true, 32, false⟩,
      .orDefault (.integer ⟨"radius", none⟩ ⟨false, 32, false⟩) (.integer ⟨false, 32, false⟩ 1)]
  distinct := by decide

theorem parse_grouped_placing_marking :
    placing.usage = placingFlat.usage ∧
      EndAlike (.throughout "across") ⟨(), 20⟩ placing placingFlat (.ofList ["1", "2"]) ∧
      (∀ context, (placingFlat.parse ⟨(), 20⟩ (.ofList ["1", "2"])).result = .ok context →
        context.has "across" = false) ∧
      marking.usage = markingFlat.usage ∧
      EndAlike (.except "at") ⟨(), 20⟩ marking markingFlat (.ofList ["1", "2"]) ∧
      EndAlike (.except "at") ⟨(), 20⟩ marking markingFlat (.ofList ["1", "2", "here"]) ∧
      ∃ context, (marking.parse ⟨(), 20⟩ (.ofList ["1", "2"])).result = .ok context ∧
        context.names = ["x", "y", "at", "radius"] := by
  have position := parse_grouped placing placingFlat [] _ _ ⟨"across", none⟩ rfl rfl
    (List.cons_ne_nil _ _) (by decide) ⟨(), 20⟩
  have along : ∀ argument ∈ placing.arguments.tail,
      argument.Everywhere (·.Impartial (.throughout "across") ⟨(), 20⟩) := by
    intro argument member node inside
    rw [List.mem_singleton.mp member] at inside
    simp only [group, Argument.nodes, Argument.nodesOfAll, List.append_nil, List.mem_cons,
      List.not_mem_nil, or_false] at inside
    rcases inside with rfl | rfl
    · exact Argument.impartial_group _ _ _ _
    · trivial
  have mark := parse_grouped marking markingFlat [] [_, _] _ ⟨"at", none⟩ rfl rfl
    (List.cons_ne_nil _ _) (by decide) ⟨(), 20⟩
  have radius : ∀ argument ∈ marking.arguments.tail,
      argument.Everywhere (·.Impartial (.except "at") ⟨(), 20⟩) := by
    intro argument member node inside
    rw [List.mem_singleton.mp member] at inside
    simp only [Argument.orDefault, Argument.nodes, List.mem_cons, List.mem_append,
      List.not_mem_nil, or_false] at inside
    rcases inside with rfl | rfl | rfl <;> trivial
  exact ⟨(position (.ofList [])).1, (position _).2.1 along, (position _).2.2.2 (by decide),
    (mark (.ofList [])).1, (mark _).2.2.1 radius, (mark _).2.2.1 radius, _, rfl, rfl⟩

/-- A group behind a group has the entry of that in its own value: with the entry removed, what the
two commands store still differs. -/
theorem placing_has_group_in_group :
    ∃ context context',
      (placing.parse ⟨(), 20⟩ (.ofList ["1", "2"])).result = .ok context ∧
        (placingFlat.parse ⟨(), 20⟩ (.ofList ["1", "2"])).result = .ok context' ∧
        (Sight.except "across").see context ≠ context' := by
  refine ⟨_, _, rfl, rfl, fun same => ?_⟩
  have entries := congrArg (fun context => context.get? "along") same
  revert entries
  decide

end Command

end CommandLine
