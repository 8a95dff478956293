import LogicNet.Parse
import LogicNet.Proofs.Scanner

/-!
# A parser that reads a file once

A file is parsed in two passes, of which only the second knows the builder. The parser of this file
needs one pass. It looks at one symbol at a time, hands over each declaration as soon as it has read
it, reports each fault as soon as it meets it, and finds its way again from there, so that reading
and building take turns and nothing is kept for later.

Here is the parser itself, and why it comes to an end: each loop takes a symbol that is not the end
of the text, and `Parser.left` counts what there is to take. That it does what the two passes do is
shown in `LogicNet.Proofs.Independence`.
-/

namespace LogicNet

open Text

/-- A parser at work. -/
structure Parser (β : Type) where
  scanner : Scanner
  /-- The symbol that the parser looks at. -/
  current : Symbol
  /-- The symbols that were taken from the scanner, in order. -/
  taken : List Symbol
  /-- The blocks that were entered, the last one first. -/
  entered : List Block
  progress : Progress β
  events : List Event

namespace Parser

variable {β : Type}

/-- A parser that has not looked at anything yet. -/
def start (names : NameTable) (builder : β) (text : String) : Parser β where
  scanner := .start names text
  current := .eof .start
  taken := []
  entered := []
  progress := .start builder
  events := []

/-! ## One symbol at a time -/

/-- Take a symbol from the scanner. -/
def take (p : Parser β) : Parser β :=
  { p with
    scanner := p.scanner.next.2
    current := p.scanner.next.1
    taken := p.taken ++ [p.scanner.next.1] }

/-- Enter a block. -/
def enter (p : Parser β) (b : Block) : Parser β := { p with entered := b :: p.entered }

/-- Whether the parser looks at a lexeme. -/
def sees (p : Parser β) (lexeme : Lexeme) : Bool :=
  match p.current with
  | .token t => t.lexeme == lexeme
  | .openComment _ | .eof _ => false

variable [NetworkBuilder β]

/-- Deal with what was found, at once. Names have the numbers that they have so far. -/
def act (p : Parser β) (item : Item) : Parser β :=
  let dealt := p.progress.step p.scanner.names.idFor item
  { p with progress := dealt.2, events := p.events ++ dealt.1 }

/-- Report an error at the symbol that the parser looks at. -/
def report (p : Parser β) (error : SyntaxError) : Parser β := p.act (.fault error p.current)

/--
Go on to the next symbol. A comment that is left open is reported and passed over; no way has to be
found after that.
-/
def advance (p : Parser β) : Parser β :=
  match p.take.current with
  | .openComment _ => (p.take.report .unterminatedComment).take
  | .token _ | .eof _ => p.take

/-! ## What there is to take -/

/-- How much there is to take, the symbol that the parser looks at included. -/
def left (p : Parser β) : Nat :=
  p.scanner.rest.length +
    match p.current with
    | .eof _ => 0
    | .token _ | .openComment _ => 1

end Parser

namespace Scanner

/-- Scanning goes on, unless the text is at its end. -/
theorem length_scan (opened : Option Position) (p : Position) (cs : List Char) :
    (scan opened p cs).2.2.length ≤ cs.length ∧
      (cs ≠ [] → (scan opened p cs).2.2.length < cs.length) := by
  induction cs generalizing opened p with
  | nil => cases opened <;> exact ⟨Nat.le_refl _, fun h => absurd rfl h⟩
  | cons c cs ih =>
      -- whatever is done with `c`, it is not scanned again
      suffices h : (scan opened p (c :: cs)).2.2.length ≤ cs.length by
        rw [List.length_cons]
        exact ⟨by omega, fun _ => by omega⟩
      cases opened with
      | some opening =>
          rw [scan]
          split <;> exact (ih _ _).1
      | none =>
          rw [scan]
          split
          · exact (ih _ _).1
          · split
            · exact (ih _ _).1
            · split
              · exact Nat.le_refl _
              · split
                · exact (List.dropWhile_sublist _).length_le
                · split
                  · exact (List.dropWhile_sublist _).length_le
                  · exact (ih _ _).1

end Scanner

namespace Parser

variable {β : Type}

theorem left_take_le (p : Parser β) : p.take.left ≤ p.scanner.rest.length := by
  obtain ⟨hle, hlt⟩ := Scanner.length_scan none p.scanner.pos p.scanner.rest
  by_cases hrest : p.scanner.rest = []
  · simp [take, left, Scanner.next, hrest, Scanner.scan]
  · have hshorter := hlt hrest
    simp only [take, left, Scanner.next]
    split <;> omega

variable [NetworkBuilder β]

@[simp] theorem left_act (p : Parser β) (item : Item) : (p.act item).left = p.left := rfl

@[simp] theorem left_report (p : Parser β) (error : SyntaxError) : (p.report error).left = p.left :=
  rfl

@[simp] theorem current_report (p : Parser β) (error : SyntaxError) :
    (p.report error).current = p.current := rfl

theorem left_advance_le_length (p : Parser β) : p.advance.left ≤ p.scanner.rest.length := by
  have htake := p.left_take_le
  rw [advance]
  split
  · have htwice := (p.take.report .unterminatedComment).left_take_le
    have hrest : (p.take.report .unterminatedComment).scanner.rest.length ≤ p.take.left :=
      Nat.le_add_right _ _
    omega
  · exact htake
  · exact htake

theorem left_advance_le (p : Parser β) : p.advance.left ≤ p.left :=
  p.left_advance_le_length.trans (Nat.le_add_right _ _)

/-- What is not the end of the text is taken. -/
theorem left_advance_lt {p : Parser β} (h : ∀ q, p.current ≠ .eof q) : p.advance.left < p.left := by
  have hle := p.left_advance_le_length
  have hleft : p.left = p.scanner.rest.length + 1 := by
    rw [left]
    split
    · next q heq => exact absurd heq (h q)
    · rfl
    · rfl
  omega

/-! ## Finding the way after a fault -/

/-- Pass over semicolons, each of which is one too many. -/
def extraSemicolons (p : Parser β) : Parser β :=
  match _h : p.current with
  | .token t =>
    match t.lexeme with
    | .semicolon => extraSemicolons (p.report .extraSemicolon).advance
    | _ => p
  | .openComment _ | .eof _ => p
termination_by p.left
decreasing_by exact left_advance_lt (by simp [_h])

/-- Go on behind the next semicolon and those that follow it, or at the end of the block. -/
def recoverInBlock (p : Parser β) : Parser β :=
  match _h : p.current with
  | .token t =>
    match t.lexeme with
    | .keyword .endBlock => p
    | .semicolon => p.advance.extraSemicolons
    | _ => recoverInBlock p.advance
  | .openComment _ => recoverInBlock p.advance
  | .eof _ => p
termination_by p.left
decreasing_by all_goals exact left_advance_lt (by simp [_h])

/--
Go on at the next block that was not entered, or at the keyword that ends the file. Blocks that
start again are reported on the way.
-/
def recoverOutOfBlock (p : Parser β) : Parser β :=
  match _h : p.current with
  | .token t =>
    match t.lexeme with
    | .keyword .mainEnd => p
    | .keyword k =>
      match Block.ofKeyword? k with
      | some b =>
        if b ∈ p.entered then recoverOutOfBlock (p.report b.duplicateError).advance else p
      | none => recoverOutOfBlock p.advance
    | _ => recoverOutOfBlock p.advance
  | .openComment _ => recoverOutOfBlock p.advance
  | .eof _ => p
termination_by p.left
decreasing_by all_goals exact left_advance_lt (by simp [_h])

/-- Report an error, and go on as its plan says. -/
def syntaxError (p : Parser β) (error : SyntaxError) : Parser β :=
  let reported := p.report error
  let passed := if error.plan.advance then reported.advance else reported
  match error.plan.recovery with
  | .stay => passed
  | .inBlock => passed.recoverInBlock
  | .outOfBlock => passed.recoverOutOfBlock

/-! One round of each of these loops. -/

theorem extraSemicolons_eq (p : Parser β) :
    p.extraSemicolons =
      match p.current with
      | .token t =>
        match t.lexeme with
        | .semicolon => (p.report .extraSemicolon).advance.extraSemicolons
        | _ => p
      | .openComment _ | .eof _ => p := by
  rw [extraSemicolons]
  split <;> next h => simp only [h]

theorem recoverInBlock_eq (p : Parser β) :
    p.recoverInBlock =
      match p.current with
      | .token t =>
        match t.lexeme with
        | .keyword .endBlock => p
        | .semicolon => p.advance.extraSemicolons
        | _ => p.advance.recoverInBlock
      | .openComment _ => p.advance.recoverInBlock
      | .eof _ => p := by
  rw [recoverInBlock]
  split <;> next h => simp only [h]

theorem recoverOutOfBlock_eq (p : Parser β) :
    p.recoverOutOfBlock =
      match p.current with
      | .token t =>
        match t.lexeme with
        | .keyword .mainEnd => p
        | .keyword k =>
          match Block.ofKeyword? k with
          | some b =>
            if b ∈ p.entered then (p.report b.duplicateError).advance.recoverOutOfBlock else p
          | none => p.advance.recoverOutOfBlock
        | _ => p.advance.recoverOutOfBlock
      | .openComment _ => p.advance.recoverOutOfBlock
      | .eof _ => p := by
  rw [recoverOutOfBlock]
  split <;> next h => simp only [h]

/-! None of them adds to what there is to take. -/

theorem left_extraSemicolons_le (p : Parser β) : p.extraSemicolons.left ≤ p.left := by
  fun_induction extraSemicolons p with
  | case1 p t h ht ih =>
      exact ih.trans (p.report .extraSemicolon).left_advance_le
  | case2 | case3 | case4 => exact Nat.le_refl _

theorem left_recoverInBlock_le (p : Parser β) : p.recoverInBlock.left ≤ p.left := by
  fun_induction recoverInBlock p with
  | case1 | case5 => exact Nat.le_refl _
  | case2 p t h ht => exact p.advance.left_extraSemicolons_le.trans p.left_advance_le
  | case3 p t h hend hsemicolon ih => exact ih.trans p.left_advance_le
  | case4 p pos h ih => exact ih.trans p.left_advance_le

/-- A symbol that ends neither the block nor the text is passed over. -/
theorem left_recoverInBlock_lt {p : Parser β} (hend : p.sees (.keyword .endBlock) = false)
    (heof : ∀ q, p.current ≠ .eof q) : p.recoverInBlock.left < p.left := by
  have hlt := left_advance_lt heof
  rw [recoverInBlock]
  split
  · next t h =>
    split
    · next ht => simp [sees, h, ht] at hend
    · exact p.advance.left_extraSemicolons_le.trans_lt hlt
    · exact p.advance.left_recoverInBlock_le.trans_lt hlt
  · exact p.advance.left_recoverInBlock_le.trans_lt hlt
  · next q h => exact absurd h (heof q)

theorem left_recoverOutOfBlock_le (p : Parser β) : p.recoverOutOfBlock.left ≤ p.left := by
  fun_induction recoverOutOfBlock p with
  | case1 | case3 | case7 => exact Nat.le_refl _
  | case2 p t h k hk ht b hb hmem ih => exact ih.trans (p.report b.duplicateError).left_advance_le
  | case4 p t h k hk ht hb ih => exact ih.trans p.left_advance_le
  | case5 p t h hmain hother ih => exact ih.trans p.left_advance_le
  | case6 p pos h ih => exact ih.trans p.left_advance_le

theorem left_syntaxError_le (p : Parser β) (error : SyntaxError) :
    (p.syntaxError error).left ≤ p.left := by
  have hpassed : (if error.plan.advance then (p.report error).advance else p.report error).left ≤
      p.left := by
    split
    · exact (p.report error).left_advance_le
    · exact Nat.le_refl _
  simp only [syntaxError]
  split
  · exact hpassed
  · exact (left_recoverInBlock_le _).trans hpassed
  · exact (left_recoverOutOfBlock_le _).trans hpassed

end Parser

/-! ## Attempts -/

/--
Reads a part of a declaration. An attempt that fails has reported why, and found its way from there.
-/
abbrev Attempt (β α : Type) := EStateM Unit (Parser β) α

namespace Attempt

variable {α β : Type}

variable [NetworkBuilder β]

/-- Report an error, and give up. -/
def fail (error : SyntaxError) : Attempt β α := fun p => .error () (p.syntaxError error)

/-- Pass over a mark. -/
def mark (lexeme : Lexeme) (error : SyntaxError) : Attempt β Unit := fun p =>
  if p.sees lexeme then .ok () p.advance else fail error p

/-- Read a name. -/
def word (error : SyntaxError) : Attempt β Word := fun p =>
  match p.current with
  | .token ⟨.name text, pos⟩ => .ok ⟨text, pos⟩ p.advance
  | _ => fail error p

/-- Read a number. -/
def numeral (error : SyntaxError) : Attempt β Numeral := fun p =>
  match p.current with
  | .token ⟨.number value, pos⟩ => .ok ⟨value, pos⟩ p.advance
  | _ => fail error p

/-- If a mark is next, pass over it and read what must follow it. -/
def after? (lexeme : Lexeme) (a : Attempt β α) : Attempt β (Option α) := fun p =>
  if p.sees lexeme then (some <$> a) p.advance else .ok none p

end Attempt

section Declarations

variable {β : Type} [NetworkBuilder β]

/-- Read a device, behind its type. -/
def DeviceDecl.attempt (kind : Word) : Attempt β DeviceDecl := do
  let qualifier ← Attempt.after? .comma (Attempt.numeral .noNumber)
  Attempt.mark .equals .noEquals
  let name ← Attempt.word .invalidDeviceName
  Attempt.mark .semicolon .noSemicolon
  return { kind, qualifier, name }

/-- Read a connection, behind its first device. -/
def ConnectionDecl.attempt (outDevice : Word) : Attempt β ConnectionDecl := do
  let outPin ← Attempt.after? .dot (Attempt.word .invalidOutputLabel)
  Attempt.mark .dash .noDash
  let inDevice ← Attempt.word .invalidDeviceName
  Attempt.mark .dot .noDot
  let inPin ← Attempt.word .invalidInputLabel
  Attempt.mark .semicolon .noSemicolon
  return { outDevice, outPin, inDevice, inPin }

/-- Read a monitor, behind its device. -/
def MonitorDecl.attempt (device : Word) : Attempt β MonitorDecl := do
  let pin ← Attempt.after? .dot (Attempt.word .invalidOutputLabel)
  Attempt.mark .semicolon .noSemicolon
  return { device, pin }

/-- Read a declaration of a block, behind its first name. -/
def Block.attempt : Block → Word → Attempt β Declaration
  | devices, first => .device <$> DeviceDecl.attempt first
  | connections, first => .connection <$> ConnectionDecl.attempt first
  | monitor, first => .monitor <$> MonitorDecl.attempt first

end Declarations

/--
A measure of parsers that does not grow when the parser goes on, and by `k` at most when it reports
an error and finds its way.
-/
structure Parser.Measure {β : Type} [NetworkBuilder β] (m : Parser β → Nat) (k : Nat) : Prop where
  advance : ∀ p : Parser β, m p.advance ≤ m p
  syntaxError : ∀ (p : Parser β) (error : SyntaxError), m (p.syntaxError error) ≤ m p + k

namespace Attempt

variable {α β γ : Type} {m : Parser β → Nat} {k : Nat}

/-- What comes of an attempt at `p` is no more than `p`. If it fails, it may be more by `k`. -/
inductive Within (m : Parser β → Nat) (k : Nat) (p : Parser β) :
    EStateM.Result Unit (Parser β) α → Prop
  | ok {x : α} {q : Parser β} : m q ≤ m p → Within m k p (.ok x q)
  | error {q : Parser β} : m q ≤ m p + k → Within m k p (.error () q)

theorem Within.trans {p q : Parser β} {r : EStateM.Result Unit (Parser β) α} (h : Within m k q r)
    (hle : m q ≤ m p) : Within m k p r := by
  cases h with
  | ok h => exact .ok (h.trans hle)
  | error h => exact .error (h.trans (Nat.add_le_add_right hle k))

/-- An attempt after which there is no more than before, wherever the parser is. -/
def NonGrowing (m : Parser β → Nat) (k : Nat) (a : Attempt β α) : Prop := ∀ p, Within m k p (a p)

theorem nonGrowing_pure (x : α) : NonGrowing m k (pure x) := fun _ => .ok (Nat.le_refl _)

theorem NonGrowing.bind {a : Attempt β α} {f : α → Attempt β γ} (ha : NonGrowing m k a)
    (hf : ∀ x, NonGrowing m k (f x)) : NonGrowing m k (a >>= f) := by
  intro p
  have hrun := ha p
  simp only [Bind.bind, EStateM.bind]
  generalize a p = r at hrun
  cases hrun with
  | ok hle => exact (hf _ _).trans hle
  | error hle => exact .error hle

theorem NonGrowing.map {a : Attempt β α} (ha : NonGrowing m k a) (f : α → γ) :
    NonGrowing m k (f <$> a) := by
  intro p
  have hrun := ha p
  simp only [Functor.map, EStateM.map]
  generalize a p = r at hrun
  cases hrun with
  | ok hle => exact .ok hle
  | error hle => exact .error hle

variable [NetworkBuilder β]

theorem nonGrowing_fail (h : Parser.Measure m k) (error : SyntaxError) :
    NonGrowing m k (fail error : Attempt β α) := fun p => .error (h.syntaxError p error)

theorem nonGrowing_mark (h : Parser.Measure m k) (lexeme : Lexeme) (error : SyntaxError) :
    NonGrowing m k (mark lexeme error) := by
  intro p
  rw [mark]
  split
  · exact .ok (h.advance p)
  · exact nonGrowing_fail h error p

theorem nonGrowing_word (h : Parser.Measure m k) (error : SyntaxError) :
    NonGrowing m k (word error) := by
  intro p
  rw [word]
  split
  · exact .ok (h.advance p)
  · exact nonGrowing_fail h error p

theorem nonGrowing_numeral (h : Parser.Measure m k) (error : SyntaxError) :
    NonGrowing m k (numeral error) := by
  intro p
  rw [numeral]
  split
  · exact .ok (h.advance p)
  · exact nonGrowing_fail h error p

theorem NonGrowing.after? {a : Attempt β α} (ha : NonGrowing m k a) (h : Parser.Measure m k)
    (lexeme : Lexeme) : NonGrowing m k (Attempt.after? lexeme a) := by
  intro p
  rw [Attempt.after?]
  split
  · exact (ha.map some p.advance).trans (h.advance p)
  · exact .ok (Nat.le_refl _)

end Attempt

theorem Block.nonGrowing_attempt {β : Type} [NetworkBuilder β] {m : Parser β → Nat} {k : Nat}
    (h : Parser.Measure m k) (b : Block) (first : Word) :
    Attempt.NonGrowing m k (b.attempt first) := by
  open Attempt in
  cases b with
  | devices =>
      exact (((nonGrowing_numeral h _).after? h _).bind fun _ =>
        (nonGrowing_mark h _ _).bind fun _ => (nonGrowing_word h _).bind fun _ =>
          (nonGrowing_mark h _ _).bind fun _ => nonGrowing_pure _).map _
  | connections =>
      exact (((nonGrowing_word h _).after? h _).bind fun _ =>
        (nonGrowing_mark h _ _).bind fun _ => (nonGrowing_word h _).bind fun _ =>
          (nonGrowing_mark h _ _).bind fun _ => (nonGrowing_word h _).bind fun _ =>
            (nonGrowing_mark h _ _).bind fun _ => nonGrowing_pure _).map _
  | monitor =>
      exact (((nonGrowing_word h _).after? h _).bind fun _ =>
        (nonGrowing_mark h _ _).bind fun _ => nonGrowing_pure _).map _

/-! ## The parser -/

namespace Parser

variable {β : Type} [NetworkBuilder β]

/-- Read a declaration from its first name on, and hand it over at once. -/
def declaration (p : Parser β) (b : Block) (first : Word) : Parser β :=
  match b.attempt first p.advance with
  | .ok d q => q.act (.declared d)
  | .error _ q => q

/-- What is left to take does not grow, and an error costs nothing. -/
theorem measure_left : Measure (left (β := β)) 0 := ⟨left_advance_le, left_syntaxError_le⟩

theorem left_declaration_le (p : Parser β) (b : Block) (first : Word) :
    (p.declaration b first).left ≤ p.advance.left := by
  have hrun := b.nonGrowing_attempt measure_left first p.advance
  rw [declaration]
  generalize b.attempt first p.advance = r at hrun
  cases hrun with
  | ok hle => exact hle
  | error hle => exact hle

/-- A semicolon is passed over. -/
theorem left_extraSemicolons_lt {p : Parser β} {t : Token} (h : p.current = .token t)
    (ht : t.lexeme = .semicolon) : p.extraSemicolons.left < p.left := by
  have hlt : (p.report .extraSemicolon).advance.left < p.left :=
    left_advance_lt (p := p.report .extraSemicolon) (by simp [h])
  obtain ⟨lexeme, pos⟩ := t
  obtain rfl : lexeme = .semicolon := ht
  rw [extraSemicolons]
  split
  · next t h' =>
    obtain rfl := Symbol.token.inj (h'.symm.trans h)
    exact (left_extraSemicolons_le _).trans_lt hlt
  · next h' => rw [h] at h'; cases h'
  · next h' => rw [h] at h'; cases h'

/-- What starts no declaration and ends nothing is passed over. -/
theorem left_strayError_lt {p : Parser β} (b : Block)
    (hend : p.sees (.keyword .endBlock) = false) (heof : ∀ q, p.current ≠ .eof q) :
    (p.syntaxError b.strayError).left < p.left := by
  have hlt : (p.report b.strayError).recoverInBlock.left < p.left :=
    left_recoverInBlock_lt (p := p.report b.strayError) hend heof
  cases b <;> exact hlt

/-- Read the declarations of a block up to its end, behind its keyword. -/
def body (b : Block) (p : Parser β) : Parser β :=
  match _h : p.current with
  | .token t =>
    match _ht : t.lexeme with
    | .name text => body b (p.declaration b ⟨text, t.pos⟩)
    | .keyword .endBlock => (p.act (.closed b t)).advance
    | .keyword _ => p.syntaxError .noEnd
    | .semicolon => body b p.extraSemicolons
    | .comma | .equals | .dash | .dot | .number _ => body b (p.syntaxError b.strayError)
  | .openComment _ => body b (p.syntaxError b.strayError)
  | .eof _ => p.syntaxError .noEnd
termination_by p.left
decreasing_by
  · exact (p.left_declaration_le b _).trans_lt (left_advance_lt (by simp [_h]))
  · exact left_extraSemicolons_lt _h _ht
  all_goals exact left_strayError_lt b (by simp [sees, *]) (by simp [_h])

/-- One round of reading declarations. -/
theorem body_eq (b : Block) (p : Parser β) :
    p.body b =
      match p.current with
      | .token t =>
        match t.lexeme with
        | .name text => body b (p.declaration b ⟨text, t.pos⟩)
        | .keyword .endBlock => (p.act (.closed b t)).advance
        | .keyword _ => p.syntaxError .noEnd
        | .semicolon => body b p.extraSemicolons
        | .comma | .equals | .dash | .dot | .number _ => body b (p.syntaxError b.strayError)
      | .openComment _ => body b (p.syntaxError b.strayError)
      | .eof _ => p.syntaxError .noEnd := by
  rw [body]
  split
  · next t h =>
    rw [h]
    simp only []
    split <;> next ht => simp only [ht]
  all_goals
    next h => rw [h]

/-- Report that a block is missing, unless its keyword is next. -/
def seek (p : Parser β) (b : Block) : Parser β :=
  if p.sees (.keyword b.keyword) then p else p.syntaxError b.missingError

/-- Read the blocks that are still to come, and the end of the file. -/
def blocks : List Block → Parser β → Parser β
  | [], p => if p.sees (.keyword .mainEnd) then p else p.syntaxError .noMainEnd
  | b :: bs, p =>
    let sought := p.seek b
    if sought.sees (.keyword b.keyword) then blocks bs (body b (sought.advance.enter b))
    else blocks bs sought

/-- Read a text. -/
def run (names : NameTable) (builder : β) (text : String) : Parser β :=
  blocks Block.all (start names builder text).advance

/-- What came of it. -/
def parsed (p : Parser β) : Parsed β where
  names := p.scanner.names
  builder := p.progress.builder
  events := p.events
  stop := p.current

end Parser

end LogicNet
