import CommandLine.Text.Blank

/-! A line and its tokens.

A finished line is cut at every blank and loses its empty pieces. A line that
is still being typed is cut at single spaces and keeps them: its last token is
the one to complete, and it is empty after a space.
-/

set_option autoImplicit false

namespace CommandLine.Line

def separator : Char := ' '

def tokens (line : String) : List String :=
  ((line.toList.splitOnP Text.isBlank).filter (!·.isEmpty)).map String.ofList

def partialTokens (line : String) : List String :=
  (line.toList.splitOn separator).map String.ofList

def joined (tokens : List String) : String :=
  String.ofList ([separator].intercalate (tokens.map String.toList))

def afterSeparators : Nat → List Char → Option (List Char)
  | 0, cs => some cs
  | _ + 1, [] => none
  | count + 1, c :: rest =>
    if c = separator then afterSeparators count rest else afterSeparators (count + 1) rest

theorem partialTokens_ne_nil (line : String) : partialTokens line ≠ [] := by
  simp [partialTokens, List.splitOn_ne_nil]

theorem joined_partialTokens (line : String) : joined (partialTokens line) = line := by
  simp [joined, partialTokens, Function.comp_def, List.intercalate_splitOn]

end CommandLine.Line
