import LogicNet.Outline.Declaration
import LogicNet.Token.Stream

/-!
# What a file says, item by item

An outline lists what was found in a stretch of tokens: blocks that start and end, declarations, and
faults. It is made from the tokens alone. What a network makes of the declarations is no part of it
and cannot change it.
-/

namespace LogicNet

/-- One thing found in a file. -/
inductive Item where
  /-- A block was entered. -/
  | opened (b : Block)
  /-- A declaration of good form. -/
  | declared (d : Declaration)
  /-- A block ended, at its last token. -/
  | closed (b : Block) (last : Token)
  /-- The form is broken at a symbol. -/
  | fault (error : SyntaxError) (symbol : Symbol)
deriving DecidableEq

/-- What was found in a stretch of tokens, and the tokens behind the stretch. -/
structure Outline where
  items : List Item
  rest : List Token
deriving DecidableEq

namespace Outline

/-- Nothing was found before `ts`. -/
def nothing (ts : List Token) : Outline := ⟨[], ts⟩

/-- An outline with items found before it. -/
def behind (o : Outline) (items : List Item) : Outline := ⟨items ++ o.items, o.rest⟩

@[simp] theorem rest_nothing (ts : List Token) : (nothing ts).rest = ts := rfl

@[simp] theorem rest_behind (o : Outline) (items : List Item) : (o.behind items).rest = o.rest :=
  rfl

end Outline

namespace Ending

/-- The symbol before a reader with the tokens `ts` to go, once an open comment was noted. -/
def current (e : Ending) : List Token → Symbol
  | [] => .eof e.stop
  | t :: _ => .token t

/-- What a reader notes on coming to `ts`: behind the last token, the comment left open. -/
def arrival (e : Ending) : List Token → List Item
  | [] => (e.openComment.map fun p => .fault .unterminatedComment (.openComment p)).toList
  | _ :: _ => []

/-- Pass over one token. -/
def advance (e : Ending) : List Token → Outline
  | [] => .nothing []
  | _ :: ts => ⟨e.arrival ts, ts⟩

theorem rest_advance_suffix (e : Ending) (ts : List Token) : (e.advance ts).rest <:+ ts := by
  cases ts with
  | nil => exact List.suffix_refl _
  | cons t ts => exact List.suffix_cons t ts

end Ending

end LogicNet
