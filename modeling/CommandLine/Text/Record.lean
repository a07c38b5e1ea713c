/-! A developer's view of a value: its constructor and its named parts. -/

set_option autoImplicit false

namespace CommandLine.Text

/-- The parts as `name: text`, between braces; `hidden` says that some were left out. -/
def record (constructor : String) (parts : List (String × String)) (hidden : Bool) : String :=
  let written := parts.map fun (name, text) => name ++ ": " ++ text
  let closing := if hidden then [".."] else []
  constructor ++ " \x7b " ++ ", ".intercalate (written ++ closing) ++ " \x7d"

def optional (part : Option String) : String :=
  match part with
  | none => "None"
  | some text => "Some(" ++ text ++ ")"

end CommandLine.Text
