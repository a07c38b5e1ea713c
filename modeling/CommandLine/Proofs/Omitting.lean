import CommandLine.Proofs.Choice
import CommandLine.Proofs.Coverage
import CommandLine.Proofs.Tokenless

/-! Arguments that may be left out.

A command is read without tokens exactly if each of its arguments succeeds
behind the last token, at once or by its resolution. Every argument that does is
marked as optional, but not every one that is marked does: a named one asks for
its token, and an alternation forgets who was absent once another member waits.
-/

set_option autoImplicit false

namespace CommandLine

variable {σ : Type}

/-- The argument may be left out at the end of the tokens. -/
def Argument.omits (argument : Argument σ) : Bool :=
  argument.bare.succeeds

def Step.Omits (omits : Bool) (step : Step) : Prop :=
  ∀ context cursor, cursor.hasNext = false →
    match (step.read context cursor).outcome with
    | .ok _ => omits = true
    | .error (.error _) => omits = false
    | .error (.deferred signal) => Resolution.Answers step.resolve signal omits

theorem Argument.omits_step (input : Input σ) {argument : Argument σ}
    (unfailing : argument.Everywhere Unfailing) : (argument.step input).Omits argument.omits := by
  intro context cursor done
  have told := describes_read input unfailing .storing context done
  show match (argument.read input .storing context cursor).outcome with
    | .ok _ => argument.bare.succeeds = true
    | .error (.error _) => argument.bare.succeeds = false
    | .error (.deferred signal) =>
      Resolution.Answers (argument.resolve input) signal argument.bare.succeeds
  generalize argument.bare = bare at told ⊢
  generalize (argument.read input .storing context cursor).outcome = outcome at told ⊢
  cases told with
  | given => rfl
  | absent => rfl
  | refused => rfl
  | waits answers => exact answers

namespace Step.Omits

variable {step : Step} {omits : Bool} {context : Context} {cursor : Cursor} {signal : Signal}
  {skipping : Exploration}

theorem isOk_verdict (h : step.Omits omits) (passed : Passed step context cursor signal skipping)
    (onward : cursor.Reaches skipping.cursor) (done : cursor.hasNext = false) :
    (step.verdict context cursor signal skipping).isOk = omits := by
  have answers := h context cursor done
  have last := (Exploration.reaches_start onward).done done
  rw [passed.sent] at answers
  unfold Step.verdict
  rw [Visit.leavesInput, last]
  exact answers _ _ _ last

end Step.Omits

theorem Step.Advances.hasNext_of_consumes {step : Step} {context : Context} {cursor : Cursor}
    {signal : Signal} {skipping : Exploration} (h : step.Advances)
    (onward : cursor.Reaches skipping.cursor)
    (takes : step.consumes context cursor signal skipping = true) : cursor.hasNext = true :=
  (Exploration.reaches_start onward).hasNext (Visit.hasNext_of_consumes (h.resolve ..) takes)

namespace Explores

variable {index : Nat} {steps : List Step} {context : Context} {cursor : Cursor}
  {exploration : Exploration}

theorem omits (h : Explores index steps context cursor exploration) {verdicts : List Bool}
    (told : List.Forall₂ Step.Omits verdicts steps) (advance : ∀ step ∈ steps, step.Advances)
    (done : cursor.hasNext = false) :
    exploration.ending.isFailed = !verdicts.and ∧ exploration.ending.isFinished = false := by
  induction h generalizing verdicts with
  | reached =>
    cases told
    exact ⟨rfl, rfl⟩
  | @read index step rest context cursor value onward came others ih =>
    obtain ⟨head, behind⟩ := List.forall_mem_cons.mp advance
    cases told with
    | cons first later =>
      have omits := first context cursor done
      rw [came] at omits
      obtain ⟨failed, finished⟩ := ih later behind ((head.read context cursor).done done)
      exact ⟨by rw [omits]; exact failed, finished⟩
  | @failed index step rest context cursor cause came =>
    cases told with
    | cons first later =>
      have omits := first context cursor done
      rw [came] at omits
      rw [omits]
      exact ⟨rfl, rfl⟩
  | dropped sent others finished ih =>
    obtain ⟨head, behind⟩ := List.forall_mem_cons.mp advance
    cases told with
    | cons first later => exact absurd finished (Bool.eq_false_iff.mp (ih later behind done).2)
  | unresolved passed others came =>
    obtain ⟨-, behind⟩ := List.forall_mem_cons.mp advance
    cases told with
    | cons first later =>
      have omits := first.isOk_verdict passed (others.reaches behind) done
      rw [came] at omits
      rw [← omits]
      exact ⟨rfl, rfl⟩
  -- No token is there to be taken, so that no resolution ends the run or has it start over.
  | finished passed others came consumes =>
    obtain ⟨head, behind⟩ := List.forall_mem_cons.mp advance
    have left := head.hasNext_of_consumes (others.reaches behind) consumes
    exact absurd (done.symm.trans left) Bool.noConfusion
  | restarted passed others came consumes =>
    obtain ⟨head, behind⟩ := List.forall_mem_cons.mp advance
    have left := head.hasNext_of_consumes (others.reaches behind) consumes
    exact absurd (done.symm.trans left) Bool.noConfusion
  | resolved passed others came _ ih =>
    obtain ⟨-, behind⟩ := List.forall_mem_cons.mp advance
    cases told with
    | cons first later =>
      have omits := first.isOk_verdict passed (others.reaches behind) done
      rw [came] at omits
      obtain ⟨failed, finished⟩ := ih later behind done
      exact ⟨by rw [← omits]; exact failed, finished⟩

end Explores

namespace Bare

variable {members : List Bare} {resolves : Bool}

theorem succeeds_orProduced (bare : Bare) (produces : Bool) :
    (bare.orProduced produces).succeeds = (bare.succeeds || produces) := by
  cases bare <;> rfl

theorem mem_waiting_iff : resolves ∈ members.filterMap waiting? ↔ .waits resolves ∈ members := by
  rw [List.mem_filterMap]
  constructor
  · rintro ⟨bare, inside, waits⟩
    cases bare with
    | waits => exact Option.some.inj waits ▸ inside
    | _ => cases waits
  · exact fun inside => ⟨_, inside, rfl⟩

theorem exists_waits_of_firstOf (waits : firstOf members = .waits resolves) :
    ∃ resolves, .waits resolves ∈ members := by
  unfold firstOf at waits
  split at waits
  · cases waits
  · split at waits
    · split at waits <;> cases waits
    next first others told =>
      exact ⟨first, mem_waiting_iff.mp (told ▸ List.mem_cons_self)⟩

theorem exists_succeeds_of_firstOf (h : (firstOf members).succeeds = true)
    (nonempty : members ≠ []) : ∃ bare ∈ members, bare.succeeds = true := by
  unfold firstOf at h
  split at h
  next given => exact ⟨_, given, rfl⟩
  next =>
    split at h
    next =>
      split at h
      next absent => exact ⟨_, absent.resolve_right nonempty, rfl⟩
      next => cases h
    next first others told =>
      obtain ⟨resolves, inside, answered⟩ := List.any_eq_true.mp h
      exact ⟨_, mem_waiting_iff.mp (told ▸ inside), answered⟩

theorem succeeds_firstOf {bare : Bare} (inside : bare ∈ members) (succeeds : bare.succeeds = true)
    (others : ∀ resolves, .waits resolves ∈ members → resolves = true) :
    (firstOf members).succeeds = true := by
  unfold firstOf
  split
  next => rfl
  next noneGiven =>
    split
    next noneWaits =>
      cases bare with
      | given => exact absurd inside noneGiven
      | absent => rw [if_pos (.inl inside)]; rfl
      | refused => cases succeeds
      | waits => cases noneWaits ▸ mem_waiting_iff.mpr inside
    next first rest told =>
      have waits : .waits first ∈ members := mem_waiting_iff.mp (told ▸ List.mem_cons_self)
      rw [others first waits]
      rfl

end Bare

namespace Argument

theorem isFallback_of_waits {argument : Argument σ} {resolves : Bool}
    (waits : argument.bare = .waits resolves) : argument.isFallback = true := by
  induction argument generalizing resolves with
  | optional inner ih =>
    cases told : inner.bare with
    | waits => exact ih told
    | _ => simp [bare, told, Bare.orAbsent] at waits
  | mapped inner mapping ih => exact ih waits
  | fallback => rfl
  | sequence label parts =>
    unfold bare at waits
    split at waits <;> cases waits
  | firstOf label alternatives style ofAlternatives =>
    obtain ⟨resolves, inside⟩ := Bare.exists_waits_of_firstOf waits
    rw [bares_eq_map] at inside
    obtain ⟨alternative, member, told⟩ := List.mem_map.mp inside
    show (infos alternatives).any (·.fallback) = true
    rw [infos_eq_map, List.any_map]
    exact List.any_eq_true.mpr ⟨alternative, member, ofAlternatives alternative member told⟩
  | _ => cases waits

theorem isDecided_eq_omits {argument : Argument σ} (steady : argument.isFallback = false) :
    argument.bare.isDecided = argument.omits := by
  unfold omits
  cases told : argument.bare with
  | waits => exact absurd (isFallback_of_waits told) (Bool.eq_false_iff.mp steady)
  | _ => rfl

section

variable {primary producer : Argument σ} {label : Label} {parts alternatives : List (Argument σ)}
  {compute : Context → Except ArgumentError Value} {joinsFormats : Bool} {style : AlternationStyle}

theorem omits_fallback (steady : producer.isFallback = false) :
    (fallback primary producer).omits = (primary.omits || producer.omits) := by
  rw [← isDecided_eq_omits steady]
  exact Bare.succeeds_orProduced ..

theorem omits_sequence_iff (steady : ∀ part ∈ parts, part.isFallback = false) :
    (sequence label parts compute joinsFormats).omits = true ↔
      ∀ part ∈ parts, part.omits = true := by
  have decided : (sequence label parts compute joinsFormats).omits =
      (bares parts).all Bare.isDecided := by
    unfold omits bare
    cases (bares parts).all Bare.isDecided <;> rfl
  rw [decided, bares_eq_map, List.all_map, List.all_eq_true]
  refine forall₂_congr fun part member => ?_
  rw [Function.comp_apply, isDecided_eq_omits (steady part member)]

theorem isOptional_sequence_iff : (sequence label parts compute joinsFormats).isOptional = true ↔
    ∀ part ∈ parts, part.isOptional = true := by
  show (infos parts).all (·.optional) = true ↔ _
  rw [infos_eq_map, List.all_map, List.all_eq_true]
  rfl

theorem isOptional_firstOf_iff : (firstOf label alternatives style).isOptional = true ↔
    ∃ alternative ∈ alternatives, alternative.isOptional = true := by
  show (infos alternatives).any (·.optional) = true ↔ _
  rw [infos_eq_map, List.any_map, List.any_eq_true]
  rfl

end

theorem isOptional_of_omits {argument : Argument σ} (wellFormed : argument.WellFormed)
    (omits : argument.omits = true) : argument.isOptional = true := by
  induction argument with
  | fixed => rfl
  | optional => rfl
  | mapped inner mapping ih => exact ih wellFormed omits
  | fallback primary producer ofPrimary ofProducer =>
    obtain ⟨first, second, steady⟩ := wellFormed
    rw [omits_fallback steady, Bool.or_eq_true] at omits
    exact Bool.or_eq_true_iff.mpr (omits.imp (ofPrimary first) (ofProducer second))
  | sequence label parts compute joinsFormats ofParts =>
    obtain ⟨-, steady, members⟩ := wellFormed
    rw [omits_sequence_iff steady] at omits
    rw [isOptional_sequence_iff]
    rw [allWellFormed_iff] at members
    exact fun part member => ofParts part member (members part member) (omits part member)
  | firstOf label alternatives style ofAlternatives =>
    obtain ⟨nonempty, members⟩ := wellFormed
    rw [allWellFormed_iff] at members
    have some : bares alternatives ≠ [] := by
      rw [bares_eq_map]
      exact fun none => nonempty (List.map_eq_nil_iff.mp none)
    obtain ⟨bare, inside, succeeds⟩ := Bare.exists_succeeds_of_firstOf omits some
    rw [bares_eq_map] at inside
    obtain ⟨alternative, member, rfl⟩ := List.mem_map.mp inside
    have marked := ofAlternatives alternative member (members alternative member) succeeds
    exact isOptional_firstOf_iff.mpr ⟨alternative, member, marked⟩
  | _ => cases omits

/-- The marks of the tree are kept: a named argument has none, and where an alternation is marked,
no member without a mark waits. -/
def Faithful : Argument σ → Prop
  | .named inner => inner.isOptional = false
  | .firstOf _ alternatives _ =>
    (∃ alternative ∈ alternatives, alternative.isOptional = true) →
      ∀ alternative ∈ alternatives, alternative.isFallback = true → alternative.isOptional = true
  | _ => True

/-- Where the marks are kept, whoever has one may be left out. -/
theorem omits_of_isOptional {argument : Argument σ} (wellFormed : argument.WellFormed)
    (unfailing : argument.Everywhere Unfailing) (faithful : argument.Everywhere Faithful)
    (optional : argument.isOptional = true) : argument.omits = true := by
  induction argument with
  | fixed => rfl
  | optional inner =>
    show inner.bare.orAbsent.succeeds = true
    cases inner.bare <;> rfl
  | named inner => exact absurd optional (Bool.eq_false_iff.mp faithful.self)
  | mapped inner mapping ih => exact ih wellFormed unfailing.mapped faithful.mapped optional
  | fallback primary producer ofPrimary ofProducer =>
    obtain ⟨first, second, steady⟩ := wellFormed
    rw [omits_fallback steady, Bool.or_eq_true]
    exact (Bool.or_eq_true_iff.mp optional).imp
      (ofPrimary first unfailing.primary faithful.primary)
      (ofProducer second unfailing.producer faithful.producer)
  | sequence label parts compute joinsFormats ofParts =>
    obtain ⟨-, steady, members⟩ := wellFormed
    rw [allWellFormed_iff] at members
    rw [isOptional_sequence_iff] at optional
    rw [omits_sequence_iff steady]
    exact fun part member => ofParts part member (members part member)
      (unfailing.part part member) (faithful.part part member) (optional part member)
  | firstOf label alternatives style ofAlternatives =>
    obtain ⟨-, members⟩ := wellFormed
    rw [allWellFormed_iff] at members
    have succeeds : ∀ alternative ∈ alternatives, alternative.isOptional = true →
        alternative.bare.succeeds = true := fun alternative member =>
      ofAlternatives alternative member (members alternative member)
        (unfailing.alternative alternative member) (faithful.alternative alternative member)
    obtain ⟨alternative, member, own⟩ := isOptional_firstOf_iff.mp optional
    refine Bare.succeeds_firstOf (bares_eq_map alternatives ▸ List.mem_map_of_mem member)
      (succeeds alternative member own) fun resolves inside => ?_
    rw [bares_eq_map] at inside
    obtain ⟨other, member, told⟩ := List.mem_map.mp inside
    have marked := faithful.self (isOptional_firstOf_iff.mp optional) other member
      (isFallback_of_waits told)
    have answered := succeeds other member marked
    rwa [told] at answered
  | recorder | fromInvoker | targeted | objectId | objectById => exact unfailing.self.elim
  | _ => cases optional

end Argument

namespace Command

open Argument (Unfailing Faithful)

theorem parse_nothing_iff {command : Command σ}
    (unfailing : ∀ argument ∈ command.arguments, argument.Everywhere Unfailing) (input : Input σ) :
    (∃ context, (command.parse input (.ofList [])).result = .ok context) ↔
      ∀ argument ∈ command.arguments, argument.omits = true := by
  have explores := explores_explore 0 (command.arguments.map (·.step input)) .empty (.ofList [])
  have told : List.Forall₂ Step.Omits (command.arguments.map (·.omits))
      (command.arguments.map (·.step input)) := by
    rw [List.forall₂_map_left_iff, List.forall₂_map_right_iff, List.forall₂_same]
    exact fun argument member => argument.omits_step input (unfailing argument member)
  have advance := Argument.advances_steps input command.arguments
  obtain ⟨failed, -⟩ := explores.omits told advance rfl
  have all : (command.arguments.map (·.omits)).and = true ↔
      ∀ argument ∈ command.arguments, argument.omits = true := by
    rw [List.and, List.all_map, List.all_eq_true]
    rfl
  rw [← all]
  constructor
  · rintro ⟨context, parsed⟩
    rw [(unfailed_of_result parsed).1] at failed
    rwa [eq_comm, Bool.not_eq_false'] at failed
  · intro omits
    rw [omits] at failed
    exact ⟨_, settle_of_done failed ((explores.reaches advance).done rfl)⟩

/-- Without any tokens a command is read exactly if all of its arguments may be left out. Then all
of them are marked optional. Conversely, if the marks are kept, those that are marked may be left
out. -/
theorem parse_without_tokens (command : Command σ) (input : Input σ)
    (wellFormed : ∀ argument ∈ command.arguments, argument.WellFormed)
    (unfailing : ∀ argument ∈ command.arguments, argument.Everywhere Unfailing) :
    ((∃ context, (command.parse input (.ofList [])).result = .ok context) ↔
      ∀ argument ∈ command.arguments, argument.omits = true) ∧
    ((∃ context, (command.parse input (.ofList [])).result = .ok context) →
      ∀ argument ∈ command.arguments, argument.isOptional = true) ∧
    ((∀ argument ∈ command.arguments,
        argument.isOptional = true ∧ argument.Everywhere Faithful) →
      ∃ context, (command.parse input (.ofList [])).result = .ok context) := by
  have parses := parse_nothing_iff unfailing input
  refine ⟨parses, fun parsed argument member => ?_,
    fun marked => parses.mpr fun argument member => ?_⟩
  · exact Argument.isOptional_of_omits (wellFormed argument member)
      (parses.mp parsed argument member)
  · obtain ⟨optional, faithful⟩ := marked argument member
    exact Argument.omits_of_isOptional (wellFormed argument member) (unfailing argument member)
      faithful optional

def lenient : Command Unit where
  arguments :=
    [.sequence ⟨"place", none⟩
        [.optional (.integer ⟨"x", none⟩ ⟨true, 32, false⟩), .optional (.literal "here" "here")]
        (fun _ => .ok (.text "place")) false,
      .firstOf ⟨"amount", none⟩
        [.fallback (.integer ⟨"count", none⟩ ⟨true, 32, false⟩) (.optional (.literal "all" "all")),
          .orDefault (.boolean ⟨"every", none⟩) (.boolean true)] .listed,
      .mapped (.optional (.text ⟨"player", none⟩ false)) .ok]
  distinct := by decide

theorem parse_lenient_without_tokens :
    (∃ context, (lenient.parse ⟨(), 20⟩ (.ofList [])).result = .ok context) ∧
      ∀ argument ∈ lenient.arguments, argument.omits = true := by
  have wellFormed : ∀ argument ∈ lenient.arguments, argument.WellFormed := by
    simp [lenient, Argument.WellFormed, Argument.AllWellFormed, Argument.orDefault,
      Argument.isFallback, Argument.info, Info.omittable, Info.leaf, Info.word, Info.producer]
  have unfailing : ∀ argument ∈ lenient.arguments, argument.Everywhere Unfailing := by
    simp [lenient, Argument.Everywhere, Argument.nodes, Argument.nodesOfAll, Argument.orDefault,
      Unfailing]
  have faithful : ∀ argument ∈ lenient.arguments,
      argument.isOptional = true ∧ argument.Everywhere Faithful := by
    simp [lenient, Argument.Everywhere, Argument.nodes, Argument.nodesOfAll, Argument.orDefault,
      Faithful, Argument.isOptional, Argument.info, Argument.infos, Info.sequence, Info.firstOf,
      Info.omittable, Info.withProducer, Info.producer]
  obtain ⟨read, -, parses⟩ := parse_without_tokens lenient ⟨(), 20⟩ wellFormed unfailing
  exact ⟨parses faithful, read.mp (parses faithful)⟩

def limited : Command Unit where
  arguments := [.named (.optional (.integer ⟨"limit", none⟩ ⟨true, 32, false⟩))]
  distinct := by decide

/-- Nothing is remembered of an absent count once another alternative waits. -/
def counted : Command Unit where
  arguments :=
    [.firstOf ⟨"amount", none⟩
      [.optional (.integer ⟨"count", none⟩ ⟨true, 32, false⟩),
        .fallback (.integer ⟨"share", none⟩ ⟨true, 32, false⟩) (.literal "all" "all")] .listed]
  distinct := by decide

theorem marked_optional_but_required :
    (∀ command ∈ [limited, counted], ∀ argument ∈ command.arguments,
      argument.isOptional = true ∧ argument.WellFormed ∧ argument.Everywhere Unfailing) ∧
    (limited.parse ⟨(), 20⟩ (.ofList [])).result = .error (.missing "limit") ∧
    (counted.parse ⟨(), 20⟩ (.ofList [])).result = .error (.missing "share") := by
  refine ⟨?_, rfl, rfl⟩
  simp [limited, counted, Argument.Everywhere, Argument.nodes, Argument.nodesOfAll, Unfailing,
    Argument.WellFormed, Argument.AllWellFormed, Argument.isFallback, Argument.isOptional,
    Argument.info, Argument.infos, Info.named, Info.firstOf, Info.omittable, Info.withProducer,
    Info.leaf, Info.word]

end Command

end CommandLine
