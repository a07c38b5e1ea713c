import CommandLine.Argument.Info

/-! A command: its arguments in order, under distinct names. -/

set_option autoImplicit false

namespace CommandLine

structure Command (σ : Type) where
  arguments : List (Argument σ)
  distinct : (arguments.map (·.name)).Nodup

namespace Command

variable {σ : Type}

def firstRepeated : List String → List String → Option String
  | _, [] => none
  | seen, name :: rest => if name ∈ seen then some name else firstRepeated (name :: seen) rest

theorem nodup_of_firstRepeated_eq_none {seen names : List String}
    (h : firstRepeated seen names = none) : names.Nodup ∧ ∀ name ∈ names, name ∉ seen := by
  induction names generalizing seen with
  | nil => simp
  | cons name rest ih =>
    unfold firstRepeated at h
    split at h
    next => cases h
    next fresh =>
      obtain ⟨distinct, apart⟩ := ih h
      refine ⟨List.nodup_cons.mpr ⟨fun inside => ?_, distinct⟩, fun other inside => ?_⟩
      · exact apart name inside (List.mem_cons_self ..)
      · rcases List.mem_cons.mp inside with rfl | inRest
        · exact fresh
        · exact fun inSeen => apart other inRest (List.mem_cons_of_mem _ inSeen)

def ofList? (arguments : List (Argument σ)) : Except DefinitionError (Command σ) :=
  match h : firstRepeated [] (arguments.map (·.name)) with
  | some name => .error (.duplicateName name)
  | none => .ok ⟨arguments, (nodup_of_firstRepeated_eq_none h).1⟩

def argument? (command : Command σ) (name : String) : Option (Argument σ) :=
  command.arguments.find? (·.name = name)

def usage (command : Command σ) : String :=
  Usage.joined " " (command.arguments.map (·.format))

def inspect (command : Command σ) : String :=
  Text.record "Command" [("usage", Text.quoted command.usage)] false

end Command

end CommandLine
