/-!
# Classes of characters

A character class is written as the list of the ranges of code points in it, in increasing order.
-/

namespace LogicNet.Text

/-- Whether `n` lies in one of the ranges, which are disjoint and increasing. -/
def inRanges : List (Nat × Nat) → Nat → Bool
  | [], _ => false
  | (lo, hi) :: rest, n => if n < lo then false else n ≤ hi || inRanges rest n

end LogicNet.Text
