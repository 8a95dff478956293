import LogicNet.Text.Blank

/-!
# The lines of a text

A line ends at a line feed, and a carriage return just before the line feed belongs to the ending.
What stands after the last line feed is a line too, unless it is empty.
-/

namespace LogicNet.Text

/-- The lines of a text without their endings. -/
def lines : List Char → List (List Char)
  | [] => []
  | '\n' :: cs => [] :: lines cs
  | '\r' :: '\n' :: cs => [] :: lines cs
  | c :: cs =>
    match lines cs with
    | [] => [[c]]
    | l :: ls => (c :: l) :: ls

/-- A line up to its last visible character. -/
def trimEnd (line : List Char) : List Char := (line.reverse.dropWhile isBlank).reverse

/-- Whether some character of the line is visible. -/
def isVisible (line : List Char) : Bool := line.any (!isBlank ·)

theorem isVisible_iff {line : List Char} : isVisible line ↔ ∃ c ∈ line, isBlank c = false := by
  simp [isVisible]

end LogicNet.Text
