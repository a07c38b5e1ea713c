/-! How an argument is written in a usage line. -/

set_option autoImplicit false

namespace CommandLine.Usage

/-- Square brackets mark what may be left out, and what is hidden stays so. -/
def bracketed (reduced : String) (optional : Bool) : String :=
  if reduced.isEmpty then ""
  else if optional then "[" ++ reduced ++ "]"
  else "<" ++ reduced ++ ">"

/-- Hidden formats leave no delimiter behind. -/
def joined (delimiter : String) (formats : List String) : String :=
  delimiter.intercalate (formats.filter (!·.isEmpty))

end CommandLine.Usage
