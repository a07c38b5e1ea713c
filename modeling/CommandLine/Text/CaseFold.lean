/-! Comparison of text without regard to the case of ASCII letters.

Only the letters `A` to `Z` have a second case here; every other character
equals itself alone.
-/

set_option autoImplicit false

namespace CommandLine.Text

def lower (text : String) : String :=
  String.ofList (text.toList.map Char.toLower)

def upper (text : String) : String :=
  String.ofList (text.toList.map Char.toUpper)

def sameIgnoringCase (left right : String) : Bool :=
  left.toList.map Char.toLower == right.toList.map Char.toLower

/-- The leading characters that take up exactly `size` bytes of UTF-8. -/
def takeBytes? (size : Nat) : List Char → Option (List Char)
  | [] => if size = 0 then some [] else none
  | c :: rest =>
    if size = 0 then some []
    else if c.utf8Size ≤ size then (takeBytes? (size - c.utf8Size) rest).map (c :: ·)
    else none

/-- Compares `lead` with as many bytes of `text` as it has, if they end between two characters. -/
def startsIgnoringCase (text lead : String) : Bool :=
  match takeBytes? lead.utf8ByteSize text.toList with
  | none => false
  | some front => front.map Char.toLower == lead.toList.map Char.toLower

def startsWith (text lead : String) : Bool :=
  lead.toList.isPrefixOf text.toList

def afterLead? (lead text : String) : Option String :=
  if startsWith text lead then some (String.ofList (text.toList.drop lead.toList.length))
  else none

def occurs (part : List Char) : List Char → Bool
  | [] => part.isEmpty
  | c :: rest => part.isPrefixOf (c :: rest) || occurs part rest

def occursIn (part text : String) : Bool :=
  occurs part.toList text.toList

theorem takeBytes?_zero (cs : List Char) : takeBytes? 0 cs = some [] := by
  cases cs <;> simp [takeBytes?]

end CommandLine.Text
