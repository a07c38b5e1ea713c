import CommandLine.Integer
import CommandLine.Table

/-! The values that arguments produce, and the table they are collected in. -/

set_option autoImplicit false

namespace CommandLine

inductive Value where
  | integer (kind : IntegerKind) (number : Int)
  | text (content : String)
  | boolean (holds : Bool)
  | context (entries : List (String × Value))
  | object (id : Value) (name : String) (attributes : List (String × Value))

/-- The values read so far, each under the name of its argument. -/
abbrev Context := Table Value

structure Input (σ : Type) where
  invoker : σ
  maxSuggestions : Nat := 20

namespace Value

def ofContext (context : Context) : Value :=
  .context context.entries

mutual

def same : Value → Value → Bool
  | .integer kind number, .integer kind' number' => kind == kind' && number == number'
  | .text content, .text content' => content == content'
  | .boolean holds, .boolean holds' => holds == holds'
  | .context entries, .context entries' => sameEntries entries entries'
  | .object id name attributes, .object id' name' attributes' =>
    same id id' && name == name' && sameEntries attributes attributes'
  | _, _ => false

def sameEntries : List (String × Value) → List (String × Value) → Bool
  | [], [] => true
  | (name, value) :: rest, (name', value') :: rest' =>
    name == name' && same value value' && sameEntries rest rest'
  | _, _ => false

end

mutual

theorem same_iff_eq : (left right : Value) → (same left right = true ↔ left = right)
  | .integer .., right => by cases right <;> simp [same]
  | .text _, right => by cases right <;> simp [same]
  | .boolean _, right => by cases right <;> simp [same]
  | .context entries, right => by
    cases right <;> simp [same, sameEntries_iff_eq entries]
  | .object id _ attributes, right => by
    cases right <;> simp [same, same_iff_eq id, sameEntries_iff_eq attributes, and_assoc]

theorem sameEntries_iff_eq : (left right : List (String × Value)) →
    (sameEntries left right = true ↔ left = right)
  | [], right => by cases right <;> simp [sameEntries]
  | (name, value) :: rest, right => by
    cases right with
    | nil => simp [sameEntries]
    | cons entry _ =>
      obtain ⟨_, _⟩ := entry
      simp [sameEntries, same_iff_eq value, sameEntries_iff_eq rest]

end

instance : DecidableEq Value := fun left right =>
  decidable_of_iff _ (same_iff_eq left right)

/-- How the value reads to a user; a context is the list of its names. -/
def shown : Value → String
  | .integer _ number => toString number
  | .text content => content
  | .boolean holds => if holds then "true" else "false"
  | .context entries => ",".intercalate (entries.map (·.1))
  | .object _ name _ => name

def widest : IntegerKind :=
  ⟨true, 128, false⟩

def number? : Value → Option Int
  | .integer _ number =>
    if widest.minimum ≤ number ∧ number ≤ widest.maximum then some number else none
  | _ => none

def attribute? (name : String) : Value → Option Value
  | .object _ _ attributes => (attributes.find? (·.1 = name)).map (·.2)
  | _ => none

end Value

end CommandLine
