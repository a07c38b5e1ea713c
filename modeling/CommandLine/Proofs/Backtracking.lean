import CommandLine.Argument.Read
import CommandLine.Proofs.Table
import CommandLine.Proofs.Tree

/-! Reading leaves nothing behind that it does not mean to.

An attempt never moves the cursor back, a failed one has no effect on the
context, and an absent argument has none at all. Each combinator keeps this
law, so every tree obeys it.
-/

set_option autoImplicit false

namespace CommandLine

namespace Cursor

structure Reaches (start finish : Cursor) : Prop where
  tokens : finish.tokens = start.tokens
  forward : start.position ≤ finish.position

namespace Reaches

variable {start middle finish : Cursor}

theorem refl (cursor : Cursor) : cursor.Reaches cursor :=
  ⟨rfl, Nat.le_refl _⟩

theorem trans (first : start.Reaches middle) (second : middle.Reaches finish) :
    start.Reaches finish :=
  ⟨second.tokens.trans first.tokens, Nat.le_trans first.forward second.forward⟩

theorem within (h : start.Reaches finish) : finish.position ≤ start.tokens.length :=
  h.tokens ▸ finish.position_le

theorem hasNext (h : start.Reaches finish) (left : finish.hasNext = true) :
    start.hasNext = true := by
  have forward := h.forward
  simp only [Cursor.hasNext, h.tokens, decide_eq_true_eq] at left ⊢
  omega

theorem eq_toEnd (h : start.Reaches finish) (done : finish.hasNext = false) :
    finish = start.toEnd := by
  have within := h.within
  simp only [Cursor.hasNext, h.tokens, decide_eq_false_iff_not] at done
  ext1
  · exact h.tokens
  · show finish.position = start.tokens.length
    omega

theorem eq_of_remainingCount (h : start.Reaches finish)
    (same : finish.remainingCount = start.remainingCount) : finish = start := by
  have forward := h.forward
  have within := h.within
  simp only [remainingCount, h.tokens] at same
  ext1
  · exact h.tokens
  · omega

end Reaches

theorem reaches_toEnd (cursor : Cursor) : cursor.Reaches cursor.toEnd :=
  ⟨rfl, cursor.position_le⟩

theorem reaches_of_next? {cursor rest : Cursor} {token : String}
    (h : cursor.next? = some (token, rest)) : cursor.Reaches rest := by
  unfold next? at h
  split at h
  next inside =>
    cases h
    exact ⟨rfl, Nat.le_succ _⟩
  next => cases h

theorem position_of_stripNext? {cursor adjusted : Cursor} {lead : String}
    (h : cursor.stripNext? lead = some adjusted) :
    adjusted.position = cursor.position ∧ adjusted.tokens.length = cursor.tokens.length := by
  unfold stripNext? at h
  split at h
  · cases h
  · split at h
    · cases h
    · unfold replaceNext? at h
      split at h
      · cases h
        simp
      · cases h

end Cursor

namespace Attempt

variable {ε α : Type}

/-- A stripped run either fails at once, or is the run on the adjusted copy with its cursor put
back on the original tokens. -/
theorem stripped_cases (display lead : String) (refuse : ArgumentError → ε)
    (run : Cursor → Attempt ε α) (context : Context) (cursor : Cursor) :
    (cursor.stripNext? lead = none ∧ ∃ cause,
      stripped display lead refuse run context cursor = fail (refuse cause) context cursor) ∨
    ∃ adjusted, cursor.stripNext? lead = some adjusted ∧
      ((∃ failure, (run adjusted).outcome = .error failure ∧
        stripped display lead refuse run context cursor = { run adjusted with cursor := cursor }) ∨
      ∃ value, (run adjusted).outcome = .ok value ∧
        stripped display lead refuse run context cursor =
          { run adjusted with cursor := cursor.restore (run adjusted).cursor.position }) := by
  unfold stripped
  cases next : cursor.peek with
  | none => exact .inl ⟨by simp [Cursor.stripNext?, next], .missing display, rfl⟩
  | some token =>
    cases adjust : cursor.stripNext? lead with
    | none => exact .inl ⟨rfl, .invalid display token none, rfl⟩
    | some adjusted =>
      refine .inr ⟨adjusted, rfl, ?_⟩
      cases came : (run adjusted).outcome with
      | error failure => exact .inl ⟨failure, rfl, by simp [came]⟩
      | ok value => exact .inr ⟨value, rfl, by simp [came]⟩

end Attempt

def Mode.stores : Mode → List String → List String
  | .storing, names => names
  | .viewing, _ => []

theorem Mode.stores_subset (mode : Mode) {names more : List String}
    (inside : ∀ name ∈ names, name ∈ more) :
    ∀ name ∈ mode.stores names, name ∈ mode.stores more := by
  cases mode with
  | storing => exact inside
  | viewing => exact fun _ => id

namespace Reading

/-- What reading does to the context and the cursor it started from, `stored` being the names
under which it may store. -/
structure Backtracks (stored : List String) (context : Context) (cursor : Cursor)
    (reading : Reading) : Prop where
  forward : cursor.Reaches reading.cursor
  failed : ∀ failure, reading.outcome = .error failure → reading.context = context
  absent : reading.outcome = .ok none → reading.context = context ∧ reading.cursor = cursor
  stores : context.StoredUnder stored reading.context

section

variable {stored : List String} {context : Context} {cursor finish : Cursor} {reading : Reading}

theorem backtracks_fail (forward : cursor.Reaches finish) (failure : Failure) :
    Backtracks stored context cursor (.fail failure context finish) :=
  ⟨forward, fun _ _ => rfl, nofun, .refl ..⟩

theorem backtracks_ok (forward : cursor.Reaches finish) (value : Value) :
    Backtracks stored context cursor (.ok (some value) context finish) :=
  ⟨forward, nofun, nofun, .refl ..⟩

namespace Backtracks

theorem mono {more : List String} (h : reading.Backtracks stored context cursor)
    (inside : ∀ name ∈ stored, name ∈ more) : reading.Backtracks more context cursor :=
  ⟨h.forward, h.failed, h.absent, h.stores.mono inside⟩

theorem after (h : reading.Backtracks stored context cursor) (earlier : List Event) :
    Reading.Backtracks stored context cursor (Attempt.after reading earlier) :=
  ⟨h.forward, h.failed, h.absent, h.stores⟩

theorem fail (h : reading.Backtracks stored context cursor) (same : reading.context = context)
    (failure : Failure) :
    Reading.Backtracks stored context cursor { reading with outcome := .error failure } :=
  ⟨h.forward, fun _ _ => same, nofun, h.stores⟩

theorem replace (h : reading.Backtracks stored context cursor) (value : Value) :
    Reading.Backtracks stored context cursor { reading with outcome := .ok (some value) } :=
  ⟨h.forward, nofun, nofun, h.stores⟩

theorem context_eq (h : reading.Backtracks [] context cursor) : reading.context = context :=
  h.stores.eq_of_nil

theorem kept {mode : Mode} {names : List String} {name : String}
    (h : reading.Backtracks (mode.stores names) context cursor) (inside : name ∈ names) :
    (reading.kept mode name).Backtracks (mode.stores names) context cursor := by
  unfold Reading.kept
  split
  next value came =>
    exact ⟨h.forward, by simp [came], by simp [came], h.stores.put inside value⟩
  next => exact h

theorem wrapped (h : reading.Backtracks stored context cursor) (name : String) :
    (reading.wrapped name).Backtracks stored context cursor := by
  unfold Reading.wrapped
  split
  next signal came => exact h.fail (h.failed _ came) _
  next => exact h

theorem orAbsent (h : reading.Backtracks stored context cursor) (name : String) :
    (reading.orAbsent name cursor).Backtracks stored context cursor := by
  unfold Reading.orAbsent
  split
  next => exact h
  next signal came => exact h.fail (h.failed _ came) _
  next cause came => exact ⟨.refl _, nofun, fun _ => ⟨h.failed _ came, rfl⟩, h.stores⟩

theorem postponed (h : reading.Backtracks stored context cursor) (name : String) :
    (reading.postponed name).Backtracks stored context cursor := by
  unfold Reading.postponed
  split
  next => exact h
  next cause came => exact h.fail (h.failed _ came) _
  next signal came => exact h.fail (h.failed _ came) _

theorem mapped (h : reading.Backtracks [] context cursor) (name : String)
    (mapping : Value → Except ArgumentError Value) :
    (reading.mapped name mapping).Backtracks [] context cursor := by
  -- The inner value must only have been viewed: a mapping that refuses it stores nothing.
  unfold Reading.mapped
  split
  next => exact h
  next value _ =>
    split
    next cause _ => exact h.fail h.context_eq _
    next image _ => exact h.replace image
  next => exact h
  next => exact h.fail h.context_eq _

end Backtracks

theorem backtracks_stripped (display lead : String) (refuse : ArgumentError → Failure)
    {run : Cursor → Reading}
    (ofRun : ∀ adjusted, (run adjusted).Backtracks stored context adjusted) (cursor : Cursor) :
    Backtracks stored context cursor (.stripped display lead refuse run context cursor) := by
  rcases Attempt.stripped_cases display lead refuse run context cursor with
    ⟨-, cause, eq⟩ | ⟨adjusted, strip, ⟨failure, came, eq⟩ | ⟨value, came, eq⟩⟩
  · rw [eq]
    exact backtracks_fail (.refl _) _
  · rw [eq]
    exact ⟨.refl _, (ofRun adjusted).failed, by simp [came], (ofRun adjusted).stores⟩
  · rw [eq]
    obtain ⟨position, -⟩ := Cursor.position_of_stripNext? strip
    have ahead := (ofRun adjusted).forward.forward
    refine ⟨⟨rfl, ?_⟩, (ofRun adjusted).failed, fun none => ⟨?_, ?_⟩, (ofRun adjusted).stores⟩
    · exact Nat.le_min.mpr ⟨position ▸ ahead, cursor.position_le⟩
    · exact ((ofRun adjusted).absent none).1
    · show cursor.restore (run adjusted).cursor.position = cursor
      rw [((ofRun adjusted).absent none).2, position, Cursor.restore_position]

theorem backtracks_token (display : String) (accept : String → Except Failure Value)
    (stored : List String) (context : Context) (cursor : Cursor) :
    Backtracks stored context cursor (token display accept context cursor) := by
  unfold token
  split
  next => exact backtracks_fail (.refl _) _
  next word rest next =>
    have forward := Cursor.reaches_of_next? next
    split
    next failure _ => exact backtracks_fail forward failure
    next value _ => exact backtracks_ok forward value

theorem backtracks_text (display : String) (joinsRest : Bool) (stored : List String)
    (context : Context) (cursor : Cursor) :
    Backtracks stored context cursor (text display joinsRest context cursor) := by
  unfold text
  split
  next =>
    dsimp only
    split
    · exact backtracks_ok cursor.reaches_toEnd _
    · exact backtracks_fail (.refl _) _
  next => exact backtracks_token ..

theorem backtracks_produced (result : Except ArgumentError Value) (stored : List String)
    (context : Context) (cursor : Cursor) :
    Backtracks stored context cursor (produced result context cursor) := by
  unfold produced
  split
  · exact backtracks_fail (.refl _) _
  · exact backtracks_ok (.refl _) _

theorem inOrder_reaches {parts : List Reader}
    (ofParts : ∀ part ∈ parts, ∀ context cursor,
      (part context cursor).Backtracks stored context cursor)
    (context : Context) (cursor : Cursor) :
    cursor.Reaches (inOrder parts context cursor).cursor ∧
      context.StoredUnder stored (inOrder parts context cursor).context := by
  induction parts generalizing context cursor with
  | nil => exact ⟨.refl _, .refl ..⟩
  | cons part rest ih =>
    have first := ofParts part List.mem_cons_self context cursor
    unfold inOrder
    dsimp only
    split
    next => exact ⟨first.forward, first.stores⟩
    next =>
      have ofRest := fun part inside => ofParts part (List.mem_cons_of_mem _ inside)
      obtain ⟨forward, stores⟩ := ih ofRest
        (part context cursor).context (part context cursor).cursor
      exact ⟨first.forward.trans forward, first.stores.trans stores⟩

theorem backtracks_sequence {parts : List Reader} {names : List String} {name : String}
    (mode : Mode) (compute : Context → Except ArgumentError Value)
    (ofParts : ∀ part ∈ parts, ∀ context cursor,
      (part context cursor).Backtracks names context cursor)
    (inside : name ∈ names) (context : Context) (cursor : Cursor) :
    Backtracks (mode.stores names) context cursor
      (sequence mode name compute parts context cursor) := by
  obtain ⟨forward, stores⟩ := inOrder_reaches ofParts context cursor
  unfold sequence
  dsimp only
  split
  next => exact ⟨forward, fun _ _ => rfl, nofun, .refl ..⟩
  next =>
    split
    next => exact ⟨forward, fun _ _ => rfl, nofun, .refl ..⟩
    next value _ =>
      refine ⟨forward, nofun, nofun, ?_⟩
      cases mode with
      | storing =>
        -- Merging the copy back gives the copy, for it only added to the context.
        show context.StoredUnder names ((context.merge _).put name value)
        rw [stores.merge_eq]
        exact stores.put inside value
      | viewing => exact .refl ..

/-- No alternative sees anything of those before it: each of them left without a trace. -/
theorem backtracks_firstFrom {alternatives : List Reader} (name : String)
    (ofAlternatives : ∀ alternative ∈ alternatives, ∀ context cursor,
      (alternative context cursor).Backtracks stored context cursor)
    (index : Nat) (tally : Tally) (context : Context) (cursor : Cursor) :
    Backtracks stored context cursor (firstFrom name cursor index tally alternatives context) := by
  induction alternatives generalizing index tally with
  | nil => exact ⟨.refl _, fun _ _ => rfl, fun _ => ⟨rfl, rfl⟩, .refl ..⟩
  | cons alternative rest ih =>
    have first := ofAlternatives alternative List.mem_cons_self context cursor
    have others := ih fun alternative inside =>
      ofAlternatives alternative (List.mem_cons_of_mem _ inside)
    unfold firstFrom
    dsimp only
    split
    next => exact first
    next came =>
      rw [(first.absent came).1]
      exact (others _ _).after _
    next signal came =>
      rw [first.failed _ came]
      exact (others _ _).after _
    next cause came =>
      rw [first.failed _ came]
      exact (others _ _).after _

theorem backtracks_identifier {σ : Type} (rules : IdRules σ) (input : Input σ) {inner : Reader}
    (ofInner : ∀ context cursor, (inner context cursor).Backtracks [] context cursor)
    (context : Context) (cursor : Cursor) :
    Backtracks [] context cursor (identifier rules input inner context cursor) := by
  have h := ofInner context cursor
  unfold identifier
  split
  next => exact backtracks_fail (.refl _) _
  next =>
    dsimp only
    split
    next => exact h.fail h.context_eq _
    next => exact h
    next =>
      split
      next => exact h.fail h.context_eq _
      next accepted _ => exact h.replace accepted

theorem backtracks_object {σ : Type} (rules : ObjectRules σ) (render : Value → String)
    (input : Input σ) {id : Reader}
    (ofId : ∀ context cursor, (id context cursor).Backtracks [] context cursor)
    (context : Context) (cursor : Cursor) :
    Backtracks [] context cursor (object rules render input id context cursor) := by
  have h := ofId context cursor
  unfold object
  dsimp only
  split
  next => exact h.fail h.context_eq _
  next => exact h
  next =>
    split
    next => exact h.fail h.context_eq _
    next => exact h.fail h.context_eq _
    next =>
      split
      next => exact h.fail h.context_eq _
      next accepted _ => exact h.replace accepted

end

end Reading

namespace Argument

variable {σ : Type}

theorem backtracks_readers {input : Input σ} {mode : Mode} {arguments : List (Argument σ)}
    (ofMembers : ∀ argument ∈ arguments, ∀ context cursor,
      (argument.read input mode context cursor).Backtracks (mode.stores argument.stored) context
        cursor) :
    ∀ reader ∈ readers input mode arguments, ∀ context cursor,
      (reader context cursor).Backtracks (mode.stores (storedOfAll arguments)) context cursor := by
  rw [readers_eq_map]
  intro reader inside context cursor
  obtain ⟨argument, member, rfl⟩ := List.mem_map.mp inside
  refine (ofMembers argument member context cursor).mono (mode.stores_subset fun name stored => ?_)
  exact mem_storedOfAll.mpr ⟨argument, member, stored⟩

theorem backtracks_read (input : Input σ) (mode : Mode) (argument : Argument σ)
    (context : Context) (cursor : Cursor) :
    (argument.read input mode context cursor).Backtracks (mode.stores argument.stored) context
      cursor := by
  induction argument generalizing mode context cursor with
  | literal name word => exact Reading.backtracks_token ..
  | integer label kind =>
    exact (Reading.backtracks_token ..).kept List.mem_cons_self
  | text label joinsRest =>
    exact (Reading.backtracks_text ..).kept List.mem_cons_self
  | boolean label => exact (Reading.backtracks_token ..).kept List.mem_cons_self
  | recorder name accepted => exact (Reading.backtracks_token ..).kept List.mem_cons_self
  | fixed label value => exact (Reading.backtracks_produced ..).kept List.mem_cons_self
  | fromInvoker label kind project =>
    exact (Reading.backtracks_produced ..).kept List.mem_cons_self
  | targeted label lookup => exact (Reading.backtracks_produced ..).kept List.mem_cons_self
  | optional inner ih => exact (ih mode context cursor).orAbsent _
  | named inner ih =>
    exact (Reading.backtracks_stripped _ _ _ (fun adjusted => ih mode context adjusted) _).wrapped _
  | mapped inner mapping ih =>
    exact (((ih .viewing context cursor).mapped _ mapping).mono nofun).kept List.mem_cons_self
  | fallback primary producer ofPrimary _ => exact (ofPrimary mode context cursor).postponed _
  | sequence label parts compute joinsFormats ofParts =>
    -- In either mode the parts store, as they fill a copy of the context.
    refine Reading.backtracks_sequence mode compute (fun reader inside context cursor => ?_)
      List.mem_cons_self context cursor
    have ofReader := backtracks_readers (fun part member => ofParts part member .storing) reader
      inside context cursor
    exact ofReader.mono fun name stored => List.mem_cons_of_mem _ stored
  | firstOf label alternatives style ofAlternatives =>
    refine (Reading.backtracks_firstFrom _ (fun reader inside context cursor => ?_) ..).kept
      List.mem_cons_self
    have ofReader := backtracks_readers (fun alternative member => ofAlternatives alternative member
      mode) reader inside context cursor
    exact ofReader.mono (mode.stores_subset fun name stored => List.mem_cons_of_mem _ stored)
  | objectId rules inner ih =>
    exact ((Reading.backtracks_identifier _ _ (ih .viewing) context cursor).mono nofun).kept
      List.mem_cons_self
  | objectById rules id inner ih =>
    have ofId := Reading.backtracks_identifier id input (ih .viewing)
    exact ((Reading.backtracks_object _ _ _ ofId context cursor).mono nofun).kept
      List.mem_cons_self

@[simp] theorem context_read_viewing (input : Input σ) (argument : Argument σ) (context : Context)
    (cursor : Cursor) : (argument.read input .viewing context cursor).context = context :=
  (backtracks_read input .viewing argument context cursor).context_eq

/-- Reading stays on the tokens it was given and never moves back; an argument that fails or is
absent has no effect, and a value changes nothing but what is stored under names of the tree. -/
theorem read_frame (input : Input σ) (argument : Argument σ) (context : Context)
    (cursor : Cursor) :
    let reading := argument.read input .storing context cursor
    reading.cursor.tokens = cursor.tokens ∧
      cursor.position ≤ reading.cursor.position ∧
      reading.cursor.position ≤ cursor.tokens.length ∧
      (∀ failure, reading.outcome = .error failure → reading.context = context) ∧
      (reading.outcome = .ok none → reading.context = context ∧ reading.cursor = cursor) ∧
      ∀ value, reading.outcome = .ok (some value) →
        context.StoredUnder argument.nodeNames reading.context := by
  intro reading
  have law := backtracks_read input .storing argument context cursor
  refine ⟨law.forward.tokens, law.forward.forward, law.forward.within, law.failed, law.absent, ?_⟩
  intro value _
  exact law.stores.mono fun name stored => argument.stored_subset_nodeNames stored

end Argument

end CommandLine
