import LogicNet.Text.Lines
import LogicNet.Token.Basic

/-!
# Showing a place

A place is shown as the line that holds it, over a caret under its column. The end of a file is
shown at the last character that can be seen, for nothing stands at the end itself.
-/

namespace LogicNet

open Text (lines trimEnd isVisible)

/-- A line, and the column that the caret marks. -/
structure Excerpt where
  line : List Char
  column : Nat
deriving DecidableEq

namespace Excerpt

/-- The excerpt of a text, given as its lines, that shows a symbol. -/
def ofSymbol (lines : List (List Char)) : Symbol → Excerpt
  | .eof p =>
    match (lines.take (max p.line 1)).reverse.find? isVisible with
    | some line => ⟨line, (trimEnd line).length⟩
    | none => ⟨[], 1⟩
  | .token t => ⟨lines.getD (t.pos.line - 1) [], t.pos.column⟩
  | .openComment p => ⟨lines.getD (p.line - 1) [], p.column⟩

/--
What stands to the left of the caret. Tabs are repeated, so that the caret stands under its column
however wide a tab is shown.
-/
def padding (e : Excerpt) : List Char :=
  (e.line.take (e.column - 1)).map (fun c => if c = '\t' then '\t' else ' ') ++
    List.replicate (e.column - 1 - e.line.length) ' '

/-- The two lines that are printed. -/
def rows (e : Excerpt) : List String :=
  [String.ofList e.line, String.ofList (e.padding ++ ['^'])]

end Excerpt

end LogicNet
