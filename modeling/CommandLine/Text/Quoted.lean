import CommandLine.Text.Blank
import CommandLine.Text.Unprintable
import CommandLine.Text.Combining

/-! Text between double quotes, with everything invisible spelled out.

A quote and a backslash are escaped, five controls have a letter, and any other
character that has no printed form or would attach to its neighbour is written
as its code point in lower-case hexadecimal.
-/

set_option autoImplicit false

namespace CommandLine.Text

/-- Printable ASCII is decided without looking into the tables. -/
def isVisible (c : Char) : Bool :=
  if c.toNat < 0x7f then 0x20 ≤ c.toNat
  else !(inRanges combiningRanges c || inRanges unprintableRanges c)

def codePoint (c : Char) : List Char :=
  ['\\', 'u', '\x7b'] ++ Nat.toDigits 16 c.toNat ++ ['\x7d']

def escape (c : Char) : List Char :=
  if c = '"' then ['\\', '"']
  else if c = '\\' then ['\\', '\\']
  else if c = '\t' then ['\\', 't']
  else if c = '\n' then ['\\', 'n']
  else if c = '\r' then ['\\', 'r']
  else if c = '\x00' then ['\\', '0']
  else if isVisible c then [c]
  else codePoint c

def quoted (text : String) : String :=
  String.ofList ('"' :: text.toList.flatMap escape ++ ['"'])

def quotedSet (names : List String) : String :=
  "\x7b" ++ ", ".intercalate (names.map quoted) ++ "\x7d"

def quotedList (names : List String) : String :=
  "[" ++ ", ".intercalate (names.map quoted) ++ "]"

end CommandLine.Text
