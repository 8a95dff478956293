import LogicNet.Text.Position

/-!
# Comments

A comment runs from one marker to the next, so the markers of a text open and close comments in
turn. Comments are dropped before anything else is read. Their markers stay behind: no token
contains one, and so a comment parts what stands before it from what stands after it.
-/

namespace LogicNet

open Text

/-- The character that opens and closes a comment. -/
def commentMarker : Char := '#'

/--
What a text says outside its comments, markers included. The flag tells whether the text starts
inside a comment.
-/
def outsideComments : Bool → List Placed → List Placed
  | _, [] => []
  | inside, c :: cs =>
    if c.char = commentMarker then c :: outsideComments (!inside) cs
    else if inside then outsideComments inside cs
    else c :: outsideComments inside cs

/--
Where the comment starts that is still open when the text ends. The first argument is the marker
of a comment that is open when the text starts.
-/
def openComment? : Option Position → List Placed → Option Position
  | opened, [] => opened
  | opened, c :: cs =>
    if c.char = commentMarker then openComment? (if opened.isSome then none else some c.pos) cs
    else openComment? opened cs

theorem outsideComments_sublist (inside : Bool) (cs : List Placed) :
    (outsideComments inside cs).Sublist cs := by
  induction cs generalizing inside with
  | nil => exact List.Sublist.refl _
  | cons c cs ih =>
      unfold outsideComments
      split
      · exact (ih _).cons_cons c
      · split
        · exact (ih _).cons c
        · exact (ih _).cons_cons c

end LogicNet
