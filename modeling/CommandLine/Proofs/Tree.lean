import CommandLine.Argument.Info

/-! Reasoning over a whole tree of arguments.

One induction principle serves every law about trees: what holds of the
members of an argument is at hand wherever it has any. The nodes of a tree are
its arguments at every depth, and only under the names of some of them does
reading it store anything.
-/

set_option autoImplicit false

namespace CommandLine.Argument

variable {σ : Type}

@[elab_as_elim, induction_eliminator]
theorem induct {motive : Argument σ → Prop}
    (literal : ∀ name word, motive (.literal name word))
    (integer : ∀ label kind, motive (.integer label kind))
    (text : ∀ label joinsRest, motive (.text label joinsRest))
    (boolean : ∀ label, motive (.boolean label))
    (recorder : ∀ name accepted, motive (.recorder name accepted))
    (fixed : ∀ label value, motive (.fixed label value))
    (fromInvoker : ∀ label kind project, motive (.fromInvoker label kind project))
    (targeted : ∀ label lookup, motive (.targeted label lookup))
    (optional : ∀ inner, motive inner → motive (.optional inner))
    (named : ∀ inner, motive inner → motive (.named inner))
    (mapped : ∀ inner mapping, motive inner → motive (.mapped inner mapping))
    (fallback : ∀ primary producer, motive primary → motive producer →
      motive (.fallback primary producer))
    (sequence : ∀ label parts compute joinsFormats, (∀ part ∈ parts, motive part) →
      motive (.sequence label parts compute joinsFormats))
    (firstOf : ∀ label alternatives style, (∀ alternative ∈ alternatives, motive alternative) →
      motive (.firstOf label alternatives style))
    (objectId : ∀ rules inner, motive inner → motive (.objectId rules inner))
    (objectById : ∀ rules id inner, motive inner → motive (.objectById rules id inner))
    (argument : Argument σ) : motive argument :=
  @Argument.rec σ motive (fun members => ∀ member ∈ members, motive member)
    literal integer text boolean recorder fixed fromInvoker targeted optional named mapped
    fallback sequence firstOf objectId objectById
    (fun _ outside => absurd outside List.not_mem_nil)
    (fun _ _ ofHead ofRest => List.forall_mem_cons.mpr ⟨ofHead, ofRest⟩)
    argument

mutual

def nodes : Argument σ → List (Argument σ)
  | .optional inner => .optional inner :: nodes inner
  | .named inner => .named inner :: nodes inner
  | .mapped inner mapping => .mapped inner mapping :: nodes inner
  | .fallback primary producer => .fallback primary producer :: (nodes primary ++ nodes producer)
  | .sequence label parts compute joinsFormats =>
    .sequence label parts compute joinsFormats :: nodesOfAll parts
  | .firstOf label alternatives style =>
    .firstOf label alternatives style :: nodesOfAll alternatives
  | .objectId rules inner => .objectId rules inner :: nodes inner
  | .objectById rules id inner => .objectById rules id inner :: .objectId id inner :: nodes inner
  | argument => [argument]

def nodesOfAll : List (Argument σ) → List (Argument σ)
  | [] => []
  | argument :: rest => nodes argument ++ nodesOfAll rest

end

theorem mem_nodesOfAll {node : Argument σ} {arguments : List (Argument σ)} :
    node ∈ nodesOfAll arguments ↔ ∃ argument ∈ arguments, node ∈ argument.nodes := by
  induction arguments with
  | nil => simp [nodesOfAll]
  | cons argument rest ih => simp [nodesOfAll, ih]

theorem self_mem_nodes (argument : Argument σ) : argument ∈ argument.nodes := by
  cases argument <;> simp [nodes]

def Everywhere (holds : Argument σ → Prop) (argument : Argument σ) : Prop :=
  ∀ node ∈ argument.nodes, holds node

namespace Everywhere

variable {holds : Argument σ → Prop} {argument inner own other : Argument σ}

theorem self (h : argument.Everywhere holds) : holds argument :=
  h argument argument.self_mem_nodes

theorem optional (h : (optional inner).Everywhere holds) : inner.Everywhere holds :=
  fun node below => h node (List.mem_cons_of_mem _ below)

theorem named (h : (named inner).Everywhere holds) : inner.Everywhere holds :=
  fun node below => h node (List.mem_cons_of_mem _ below)

theorem mapped {mapping : Value → Except ArgumentError Value}
    (h : (mapped inner mapping).Everywhere holds) : inner.Everywhere holds :=
  fun node below => h node (List.mem_cons_of_mem _ below)

theorem primary (h : (fallback own other).Everywhere holds) : own.Everywhere holds :=
  fun node below => h node (List.mem_cons_of_mem _ (List.mem_append_left _ below))

theorem producer (h : (fallback own other).Everywhere holds) : other.Everywhere holds :=
  fun node below => h node (List.mem_cons_of_mem _ (List.mem_append_right _ below))

theorem part {label : Label} {parts : List (Argument σ)}
    {compute : Context → Except ArgumentError Value} {joinsFormats : Bool}
    (h : (sequence label parts compute joinsFormats).Everywhere holds) :
    ∀ part ∈ parts, part.Everywhere holds :=
  fun part member node below =>
    h node (List.mem_cons_of_mem _ (mem_nodesOfAll.mpr ⟨part, member, below⟩))

theorem alternative {label : Label} {alternatives : List (Argument σ)} {style : AlternationStyle}
    (h : (firstOf label alternatives style).Everywhere holds) :
    ∀ alternative ∈ alternatives, alternative.Everywhere holds :=
  fun alternative member node below =>
    h node (List.mem_cons_of_mem _ (mem_nodesOfAll.mpr ⟨alternative, member, below⟩))

theorem identifier {rules : IdRules σ} (h : (objectId rules inner).Everywhere holds) :
    inner.Everywhere holds :=
  fun node below => h node (List.mem_cons_of_mem _ below)

theorem object {rules : ObjectRules σ} {id : IdRules σ}
    (h : (objectById rules id inner).Everywhere holds) : (objectId id inner).Everywhere holds :=
  fun node below => h node (List.mem_cons_of_mem _ below)

end Everywhere

def nodeNames (argument : Argument σ) : List String :=
  argument.nodes.map name

theorem name_mem_nodeNames (argument : Argument σ) : argument.name ∈ argument.nodeNames :=
  List.mem_map_of_mem argument.self_mem_nodes

theorem mem_nodeNames_fallback {name : String} {primary producer : Argument σ}
    (inside : name ∈ primary.nodeNames) : name ∈ (fallback primary producer).nodeNames := by
  simp only [nodeNames, nodes, List.map_cons, List.map_append, List.mem_cons, List.mem_append]
  exact .inr (.inl inside)

theorem mem_map_name_nodesOfAll {name : String} {member : Argument σ}
    {arguments : List (Argument σ)} (inside : member ∈ arguments)
    (below : name ∈ member.nodeNames) : name ∈ (nodesOfAll arguments).map Argument.name := by
  obtain ⟨node, ofMember, named⟩ := List.mem_map.mp below
  exact List.mem_map.mpr ⟨node, mem_nodesOfAll.mpr ⟨member, inside, ofMember⟩, named⟩

mutual

/-- The names under which reading may store: a mapping and an identifier keep what they are made
from to themselves, and a keyword is not stored at all. -/
def stored : Argument σ → List String
  | .literal .. => []
  | .optional inner => stored inner
  | .named inner => stored inner
  | .fallback primary _ => stored primary
  | .sequence label parts _ _ => label.name :: storedOfAll parts
  | .firstOf label alternatives _ => label.name :: storedOfAll alternatives
  | argument => [argument.name]

def storedOfAll : List (Argument σ) → List String
  | [] => []
  | argument :: rest => stored argument ++ storedOfAll rest

end

theorem mem_storedOfAll {name : String} {arguments : List (Argument σ)} :
    name ∈ storedOfAll arguments ↔ ∃ argument ∈ arguments, name ∈ argument.stored := by
  induction arguments with
  | nil => simp [storedOfAll]
  | cons argument rest ih => simp [storedOfAll, ih]

theorem stored_subset_nodeNames (argument : Argument σ) {name : String}
    (inside : name ∈ argument.stored) : name ∈ argument.nodeNames := by
  induction argument with
  | optional inner ih => exact List.mem_cons_of_mem _ (ih inside)
  | named inner ih => exact List.mem_cons_of_mem _ (ih inside)
  | fallback primary producer ofPrimary _ => exact mem_nodeNames_fallback (ofPrimary inside)
  | sequence label parts compute joinsFormats ofParts =>
    rcases List.mem_cons.mp inside with rfl | inParts
    · exact name_mem_nodeNames _
    · obtain ⟨part, member, atPart⟩ := mem_storedOfAll.mp inParts
      exact List.mem_cons_of_mem _ (mem_map_name_nodesOfAll member (ofParts part member atPart))
  | firstOf label alternatives style ofAlternatives =>
    rcases List.mem_cons.mp inside with rfl | inAlternatives
    · exact name_mem_nodeNames _
    · obtain ⟨alternative, member, atAlternative⟩ := mem_storedOfAll.mp inAlternatives
      exact List.mem_cons_of_mem _
        (mem_map_name_nodesOfAll member (ofAlternatives alternative member atAlternative))
  | literal => cases inside
  | _ =>
    simp only [stored, List.mem_singleton] at inside
    exact inside ▸ name_mem_nodeNames _

end CommandLine.Argument
