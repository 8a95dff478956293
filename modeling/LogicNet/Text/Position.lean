/-!
# Places in a text

Lines and columns count from one, and a column is a number of characters, not of bytes. A text is
read as a list of characters that each know their place, so that whatever is found in it can say
where it stands.
-/

namespace LogicNet.Text

/-- A line and a column. -/
structure Position where
  line : Nat
  column : Nat
deriving DecidableEq, Inhabited

namespace Position

/-- The place of the first character of a text. -/
def start : Position := ⟨1, 1⟩

/-- Where the next character stands, after a `c` at `p`. -/
def next (p : Position) (c : Char) : Position :=
  if c = '\n' then ⟨p.line + 1, 1⟩ else ⟨p.line, p.column + 1⟩

/-- Where the next character stands, after the text `cs` that starts at `p`. -/
def after (p : Position) (cs : List Char) : Position := cs.foldl next p

@[simp] theorem after_nil (p : Position) : p.after [] = p := rfl

@[simp] theorem after_cons (p : Position) (c : Char) (cs : List Char) :
    p.after (c :: cs) = (p.next c).after cs := rfl

/-- In reading order: line by line, and from left to right on a line. -/
def Before (p q : Position) : Prop :=
  p.line < q.line ∨ p.line = q.line ∧ p.column < q.column

theorem before_next (p : Position) (c : Char) : p.Before (p.next c) := by
  unfold Before next
  split
  · exact .inl (Nat.lt_succ_self _)
  · exact .inr ⟨rfl, Nat.lt_succ_self _⟩

theorem Before.trans {p q r : Position} (hpq : p.Before q) (hqr : q.Before r) : p.Before r := by
  unfold Before at *
  omega

end Position

/-- A character and its place. -/
structure Placed where
  char : Char
  pos : Position
deriving DecidableEq

/-- The characters of a text that starts at `p`, each with its place. -/
def place (p : Position) : List Char → List Placed
  | [] => []
  | c :: cs => ⟨c, p⟩ :: place (p.next c) cs

@[simp] theorem map_char_place (p : Position) (cs : List Char) :
    (place p cs).map Placed.char = cs := by
  induction cs generalizing p with
  | nil => rfl
  | cons c cs ih => simp [place, ih]

theorem place_append (p : Position) (as bs : List Char) :
    place p (as ++ bs) = place p as ++ place (p.after as) bs := by
  induction as generalizing p with
  | nil => rfl
  | cons a as ih => simp [place, ih]

end LogicNet.Text
