import LogicNet.Text.Alphabetic
import LogicNet.Text.Numeric
import LogicNet.Token.Basic
import LogicNet.Token.Comments

/-!
# The tokens of a text

A letter starts a name, which goes on as far as it can; a digit starts a number; five characters are
marks of their own. Every other character is passed over, blanks and comment markers among them. So
each text has a token stream, and what a file means is left to the reader of that stream.
-/

namespace LogicNet

open Text

/-- The mark that a character is. -/
def mark? : Char → Option Lexeme
  | ',' => some .comma
  | ';' => some .semicolon
  | '=' => some .equals
  | '-' => some .dash
  | '.' => some .dot
  | _ => none

/-- Whether a character may stand in a name after its first letter. -/
def isNamePart (c : Char) : Bool := isAlphabetic c || isNumeric c || c == '_'

/-- A word is a keyword if it is spelt like one, and a name otherwise. -/
def wordLexeme (word : String) : Lexeme :=
  match Keyword.ofSpelling? word with
  | some k => .keyword k
  | none => .name word

/-- The largest value of a number: longer digit runs all stand for it. -/
def numberLimit : Nat := 9223372036854775807

/-- The value of a run of digits, read in base ten. -/
def decimalValue (digits : List Char) : Nat :=
  digits.foldl (fun n d => 10 * n + (d.toNat - '0'.toNat)) 0

/-- A run of digits is a number, the largest one if its value is too large. -/
def numberLexeme (digits : List Char) : Lexeme := .number (min (decimalValue digits) numberLimit)

/-- The tokens of a text from which the comments were dropped. -/
def tokensOf : List Placed → List Token
  | [] => []
  | c :: cs =>
    match mark? c.char with
    | some mark => ⟨mark, c.pos⟩ :: tokensOf cs
    | none =>
      if isAlphabetic c.char then
        let word := c :: cs.takeWhile (isNamePart ·.char)
        ⟨wordLexeme (String.ofList (word.map Placed.char)), c.pos⟩ ::
          tokensOf (cs.dropWhile (isNamePart ·.char))
      else if c.char.isDigit then
        let digits := c :: cs.takeWhile (·.char.isDigit)
        ⟨numberLexeme (digits.map Placed.char), c.pos⟩ ::
          tokensOf (cs.dropWhile (·.char.isDigit))
      else tokensOf cs
termination_by cs => cs.length
decreasing_by
  all_goals
    have : (cs.dropWhile (isNamePart ·.char)).length ≤ cs.length :=
      (List.dropWhile_sublist _).length_le
    have : (cs.dropWhile (·.char.isDigit)).length ≤ cs.length :=
      (List.dropWhile_sublist _).length_le
    simp only [List.length_cons]
    omega

/-- How a text ends: the comment left open, if there is one, and the place behind the text. -/
structure Ending where
  openComment : Option Position
  stop : Position
deriving DecidableEq

/-- The tokens of a text, and how the text ends. -/
structure TokenStream where
  tokens : List Token
  ending : Ending
deriving DecidableEq

namespace Ending

/-- What a reader finds behind the last token: an open comment once, and then the end. -/
def symbols (e : Ending) : List Symbol :=
  (e.openComment.map Symbol.openComment).toList ++ [.eof e.stop]

end Ending

namespace TokenStream

/-- The token stream of a text. -/
def ofText (text : String) : TokenStream :=
  let placed := place .start text.toList
  { tokens := tokensOf (outsideComments false placed)
    ending := ⟨openComment? none placed, Position.start.after text.toList⟩ }

/-- The symbols of a stream up to the end of the text. -/
def symbols (s : TokenStream) : List Symbol := s.tokens.map .token ++ s.ending.symbols

/-- The symbol that the reader finds after `n` others. The end of the text is never passed. -/
def symbolAt (s : TokenStream) (n : Nat) : Symbol := s.symbols.getD n (.eof s.ending.stop)

/-- The names in a stream, in order and with repetitions. -/
def names (s : TokenStream) : List String := s.tokens.filterMap Token.name?

end TokenStream

end LogicNet
