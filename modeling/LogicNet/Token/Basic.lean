import LogicNet.Text.Position

/-!
# The words of the definition language

A definition file is a sequence of tokens: five marks, five keywords, numbers and names. What the
reader of a file looks at is a symbol: a token, the marker of a comment that is never closed, or the
end of the text.
-/

namespace LogicNet

open Text (Position)

/-- The reserved words. -/
inductive Keyword where
  | devices
  | connections
  | monitor
  | endBlock
  | mainEnd
deriving DecidableEq

namespace Keyword

/-- The keywords in the order in which a file uses them. -/
def all : List Keyword := [.devices, .connections, .monitor, .endBlock, .mainEnd]

/-- How a keyword is written. -/
def spelling : Keyword → String
  | devices => "DEVICES"
  | connections => "CONNECTIONS"
  | monitor => "MONITOR"
  | endBlock => "END"
  | mainEnd => "MAIN_END"

/-- The spellings of all keywords. -/
def spellings : List String := all.map spelling

/-- The keyword that is written `word`, letter for letter. -/
def ofSpelling? (word : String) : Option Keyword := all.find? (·.spelling == word)

theorem mem_all (k : Keyword) : k ∈ all := by cases k <;> decide

theorem ofSpelling?_eq_some_iff {word : String} {k : Keyword} :
    ofSpelling? word = some k ↔ k.spelling = word := by
  constructor
  · intro h
    simpa using List.find?_some h
  · rintro rfl
    cases k <;> decide

end Keyword

/-- What a token says. -/
inductive Lexeme where
  | comma
  | semicolon
  | equals
  | dash
  | dot
  | keyword (k : Keyword)
  | number (value : Nat)
  | name (text : String)
deriving DecidableEq

namespace Lexeme

/-- The name in a lexeme, if it is one. -/
def name? : Lexeme → Option String
  | name text => some text
  | _ => none

end Lexeme

/-- A lexeme and the place of its first character. -/
structure Token where
  lexeme : Lexeme
  pos : Position
deriving DecidableEq

namespace Token

/-- The name in a token, if it is one. -/
def name? (t : Token) : Option String := t.lexeme.name?

end Token

/-- What a reader of the text has before it. -/
inductive Symbol where
  /-- A token. -/
  | token (t : Token)
  /-- The marker of the comment that is open when the text ends. -/
  | openComment (pos : Position)
  /-- The end of the text. -/
  | eof (pos : Position)
deriving DecidableEq

namespace Symbol

/-- Where a symbol stands. -/
def pos : Symbol → Position
  | token t => t.pos
  | openComment p => p
  | eof p => p

end Symbol

end LogicNet
