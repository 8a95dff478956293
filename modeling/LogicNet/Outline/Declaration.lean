import LogicNet.Outline.Block

/-!
# Declarations

Each block has one form of declaration, and each form starts with a name and ends with a semicolon:

* a device is its type, perhaps a comma and a number, an equals sign, and its name;
* a connection is a device, perhaps a dot and a pin, a dash, a device, a dot, and a pin;
* a monitor is a device, and perhaps a dot and a pin.

Reading a declaration never goes past the first token that cannot stand where it does.
-/

namespace LogicNet

open Text (Position)

/-- A name as it stands in a file. -/
structure Word where
  text : String
  pos : Position
deriving DecidableEq

/-- A number as it stands in a file. -/
structure Numeral where
  value : Nat
  pos : Position
deriving DecidableEq

/-- The symbol that a name is. -/
def Word.symbol (w : Word) : Symbol := .token ⟨.name w.text, w.pos⟩

/-- The symbol that a number is. -/
def Numeral.symbol (n : Numeral) : Symbol := .token ⟨.number n.value, n.pos⟩

/-- A device as it is declared. -/
structure DeviceDecl where
  kind : Word
  qualifier : Option Numeral
  name : Word
deriving DecidableEq

/-- A connection as it is declared. -/
structure ConnectionDecl where
  outDevice : Word
  outPin : Option Word
  inDevice : Word
  inPin : Word
deriving DecidableEq

/-- A monitor as it is declared. -/
structure MonitorDecl where
  device : Word
  pin : Option Word
deriving DecidableEq

/-- A declaration of any block. -/
inductive Declaration where
  | device (d : DeviceDecl)
  | connection (d : ConnectionDecl)
  | monitor (d : MonitorDecl)
deriving DecidableEq

/-! ## Reading one -/

/-- Reads a part of a declaration; after an error, the tokens left start with the one at fault. -/
abbrev Reader (α : Type) := EStateM SyntaxError (List Token) α

namespace Reader

/-- The tokens that a reader leaves. -/
def rest {α : Type} : EStateM.Result SyntaxError (List Token) α → List Token
  | .ok _ ts => ts
  | .error _ ts => ts

/-- Pass over a mark. -/
def mark (lexeme : Lexeme) (error : SyntaxError) : Reader Unit
  | [] => .error error []
  | t :: ts => if t.lexeme = lexeme then .ok () ts else .error error (t :: ts)

/-- Read a name. -/
def word (error : SyntaxError) : Reader Word
  | [] => .error error []
  | t :: ts =>
    match t.lexeme with
    | .name text => .ok ⟨text, t.pos⟩ ts
    | _ => .error error (t :: ts)

/-- Read a number. -/
def numeral (error : SyntaxError) : Reader Numeral
  | [] => .error error []
  | t :: ts =>
    match t.lexeme with
    | .number value => .ok ⟨value, t.pos⟩ ts
    | _ => .error error (t :: ts)

/-- If a mark is next, pass over it and read what must follow it. -/
def after? {α : Type} (lexeme : Lexeme) (r : Reader α) : Reader (Option α)
  | [] => .ok none []
  | t :: ts => if t.lexeme = lexeme then (some <$> r) ts else .ok none (t :: ts)

end Reader

/-- Read a device, behind its type. -/
def DeviceDecl.reader (kind : Word) : Reader DeviceDecl := do
  let qualifier ← Reader.after? .comma (Reader.numeral .noNumber)
  Reader.mark .equals .noEquals
  let name ← Reader.word .invalidDeviceName
  Reader.mark .semicolon .noSemicolon
  return { kind, qualifier, name }

/-- Read a connection, behind its first device. -/
def ConnectionDecl.reader (outDevice : Word) : Reader ConnectionDecl := do
  let outPin ← Reader.after? .dot (Reader.word .invalidOutputLabel)
  Reader.mark .dash .noDash
  let inDevice ← Reader.word .invalidDeviceName
  Reader.mark .dot .noDot
  let inPin ← Reader.word .invalidInputLabel
  Reader.mark .semicolon .noSemicolon
  return { outDevice, outPin, inDevice, inPin }

/-- Read a monitor, behind its device. -/
def MonitorDecl.reader (device : Word) : Reader MonitorDecl := do
  let pin ← Reader.after? .dot (Reader.word .invalidOutputLabel)
  Reader.mark .semicolon .noSemicolon
  return { device, pin }

/-- Read a declaration of a block, behind its first name. -/
def Block.reader : Block → Word → Reader Declaration
  | devices, first => .device <$> DeviceDecl.reader first
  | connections, first => .connection <$> ConnectionDecl.reader first
  | monitor, first => .monitor <$> MonitorDecl.reader first

/-! ## Reading only shortens the tokens -/

/-- The tokens that a reader leaves are the end of those it was given. -/
def Reader.LeavesSuffix {α : Type} (r : Reader α) : Prop :=
  ∀ ts, rest (r ts) <:+ ts

namespace Reader

theorem leavesSuffix_pure {α : Type} (a : α) : (pure a : Reader α).LeavesSuffix :=
  fun _ => List.suffix_refl _

theorem leavesSuffix_mark (lexeme : Lexeme) (error : SyntaxError) :
    (mark lexeme error).LeavesSuffix := by
  intro ts
  cases ts with
  | nil => exact List.suffix_refl _
  | cons t ts =>
      simp only [mark]
      split
      · exact List.suffix_cons t ts
      · exact List.suffix_refl _

theorem leavesSuffix_word (error : SyntaxError) : (word error).LeavesSuffix := by
  intro ts
  cases ts with
  | nil => exact List.suffix_refl _
  | cons t ts =>
      simp only [word]
      split
      · exact List.suffix_cons t ts
      · exact List.suffix_refl _

theorem leavesSuffix_numeral (error : SyntaxError) : (numeral error).LeavesSuffix := by
  intro ts
  cases ts with
  | nil => exact List.suffix_refl _
  | cons t ts =>
      simp only [numeral]
      split
      · exact List.suffix_cons t ts
      · exact List.suffix_refl _

theorem LeavesSuffix.bind {α β : Type} {r : Reader α} {f : α → Reader β}
    (hr : r.LeavesSuffix) (hf : ∀ a, (f a).LeavesSuffix) : (r >>= f).LeavesSuffix := by
  intro ts
  have h := hr ts
  simp only [Bind.bind, EStateM.bind]
  cases hrun : r ts with
  | ok a us => rw [hrun] at h; exact (hf a us).trans h
  | error e us => rw [hrun] at h; exact h

theorem LeavesSuffix.map {α β : Type} {r : Reader α} (hr : r.LeavesSuffix) (f : α → β) :
    (f <$> r).LeavesSuffix := by
  intro ts
  have h := hr ts
  simp only [Functor.map, EStateM.map]
  cases hrun : r ts with
  | ok a us => rw [hrun] at h; exact h
  | error e us => rw [hrun] at h; exact h

theorem LeavesSuffix.after? {α : Type} {r : Reader α} (hr : r.LeavesSuffix) (lexeme : Lexeme) :
    (Reader.after? lexeme r).LeavesSuffix := by
  intro ts
  cases ts with
  | nil => exact List.suffix_refl _
  | cons t ts =>
      simp only [Reader.after?]
      split
      · exact (hr.map some ts).trans (List.suffix_cons t ts)
      · exact List.suffix_refl _

end Reader

theorem Block.leavesSuffix_reader (b : Block) (first : Word) : (b.reader first).LeavesSuffix := by
  open Reader in
  cases b with
  | devices =>
      exact (((leavesSuffix_numeral _).after? _).bind fun _ => (leavesSuffix_mark _ _).bind fun _ =>
        (leavesSuffix_word _).bind fun _ => (leavesSuffix_mark _ _).bind fun _ =>
          leavesSuffix_pure _).map _
  | connections =>
      exact (((leavesSuffix_word _).after? _).bind fun _ => (leavesSuffix_mark _ _).bind fun _ =>
        (leavesSuffix_word _).bind fun _ => (leavesSuffix_mark _ _).bind fun _ =>
          (leavesSuffix_word _).bind fun _ => (leavesSuffix_mark _ _).bind fun _ =>
            leavesSuffix_pure _).map _
  | monitor =>
      exact (((leavesSuffix_word _).after? _).bind fun _ => (leavesSuffix_mark _ _).bind fun _ =>
        leavesSuffix_pure _).map _

end LogicNet
