import LogicNet.Proofs.Faults
import LogicNet.Proofs.Parser
import LogicNet.Report

/-!
# A parser that writes each diagnostic as it makes it

A report is written when a parse is over, so a sink cannot disturb the parse. The reporter of this
file does not wait. It is the parser that reads a text once, it carries its sink along, and it
writes each diagnostic where it makes it: in the middle of a declaration, in every loop that finds
the way after a fault, and when it looks one symbol ahead. A write that fails there might well
decide how the reporter goes on.

It does not. `Reporter.Mirrors` says that a reporter has come to where the parser comes, and that on
the way it wrote the diagnostics that the parser made, in order, and nothing else. Each step of the
reporter mirrors that step of the parser, and so does a whole run (`Reporter.mirrors_run`).

A line is offered to the sink in one write, and what the sink leaves is offered again. A sink that
is given a line in pieces is one that parts it by itself.
-/

namespace LogicNet

open Text (Position)

/-! ## The sink and what was told of it -/

/-- A sink to which diagnostics are written one by one. -/
structure Output (σ : Type) where
  /-- The lines of the text, from which places are shown. -/
  lines : List (List Char)
  /-- Whether places are shown. -/
  locations : Bool
  sink : σ
  /-- The first write that failed. -/
  error : Option WriteError

namespace Output

variable {σ : Type} [Sink σ]

/-- Write a diagnostic as far as it goes. Only the first failure is kept. -/
def write (o : Output σ) (d : Diagnostic) : Output σ :=
  let written := Sink.writeLines o.sink (d.rows o.lines o.locations)
  { o with sink := written.2, error := o.error.or written.1 }

/-- Write diagnostics, one after the other. -/
def writeAll (o : Output σ) (ds : List Diagnostic) : Output σ := ds.foldl write o

theorem writeAll_append (o : Output σ) (ds ds' : List Diagnostic) :
    o.writeAll (ds ++ ds') = (o.writeAll ds).writeAll ds' := List.foldl_append

end Output

/-! ## The reporter, one symbol at a time -/

/-- A parser at work, and the sink to which it reports. -/
structure Reporter (β σ : Type) extends Parser β where
  output : Output σ

namespace Reporter

section Steps

variable {β σ : Type}

/-- A reporter that has not looked at anything yet. -/
def start (names : NameTable) (builder : β) (text : String) (locations : Bool) (sink : σ) :
    Reporter β σ where
  toParser := .start names builder text
  output := ⟨Text.lines text.toList, locations, sink, none⟩

/-- Take a symbol from the scanner. -/
def take (r : Reporter β σ) : Reporter β σ := { r with toParser := r.toParser.take }

/-- Enter a block. -/
def enter (r : Reporter β σ) (b : Block) : Reporter β σ := { r with toParser := r.toParser.enter b }

variable [NetworkBuilder β] [Sink σ]

/-- Deal with what was found, and write the diagnostics that come of it. -/
def act (r : Reporter β σ) (item : Item) : Reporter β σ where
  toParser := r.toParser.act item
  output := r.output.writeAll
    (Event.diagnostics (r.progress.step r.scanner.names.idFor item).1)

/-- Report an error at the symbol that the reporter looks at. -/
def report (r : Reporter β σ) (error : SyntaxError) : Reporter β σ :=
  r.act (.fault error r.current)

@[simp] theorem current_report (r : Reporter β σ) (error : SyntaxError) :
    (r.report error).current = r.current := rfl

/-- Go on to the next symbol. A comment that is left open is reported and passed over. -/
def advance (r : Reporter β σ) : Reporter β σ :=
  match r.take.current with
  | .openComment _ => (r.take.report .unterminatedComment).take
  | .token _ | .eof _ => r.take

end Steps

/-! ## Mirroring a parser -/

section Mirrors

variable {β σ : Type} [Sink σ] {r q : Reporter β σ} {p : Parser β}

/--
On its way from `r` to `q` a reporter has come to where `p` is, and has written the diagnostics that
were made on that way.
-/
structure Mirrors (r q : Reporter β σ) (p : Parser β) : Prop where
  parser : q.toParser = p
  written : ∃ es, p.events = r.events ++ es ∧ q.output = r.output.writeAll (Event.diagnostics es)

theorem Mirrors.refl (r : Reporter β σ) : r.Mirrors r r.toParser :=
  ⟨rfl, [], (List.append_nil _).symm, rfl⟩

theorem Mirrors.current_eq (h : r.Mirrors q p) : p.current = q.current :=
  congrArg Parser.current h.parser.symm

theorem Mirrors.entered_eq (h : r.Mirrors q p) : p.entered = q.entered :=
  congrArg Parser.entered h.parser.symm

theorem Mirrors.sees_eq (h : r.Mirrors q p) (lexeme : Lexeme) :
    p.sees lexeme = q.toParser.sees lexeme :=
  congrArg (Parser.sees · lexeme) h.parser.symm

theorem Mirrors.take (h : r.Mirrors q p) : r.Mirrors q.take p.take := by
  obtain ⟨rfl, hwritten⟩ := h
  exact ⟨rfl, hwritten⟩

theorem Mirrors.enter (h : r.Mirrors q p) (b : Block) : r.Mirrors (q.enter b) (p.enter b) := by
  obtain ⟨rfl, hwritten⟩ := h
  exact ⟨rfl, hwritten⟩

variable [NetworkBuilder β]

/-- What is made is written, behind what was written before. -/
theorem Mirrors.act (h : r.Mirrors q p) (item : Item) : r.Mirrors (q.act item) (p.act item) := by
  obtain ⟨rfl, es, hevents, houtput⟩ := h
  refine ⟨rfl, es ++ (q.progress.step q.scanner.names.idFor item).1, ?_, ?_⟩
  · rw [← List.append_assoc, ← hevents]
    rfl
  · rw [Event.diagnostics_append, Output.writeAll_append, ← houtput]
    rfl

theorem Mirrors.report (h : r.Mirrors q p) (error : SyntaxError) :
    r.Mirrors (q.report error) (p.report error) := by
  obtain rfl := h.parser
  exact h.act (.fault error q.current)

/-- A comment that is left open is reported in the middle of a step. -/
theorem Mirrors.advance (h : r.Mirrors q p) : r.Mirrors q.advance p.advance := by
  have hcurrent := h.take.current_eq
  rw [Reporter.advance, Parser.advance, hcurrent]
  cases q.take.current with
  | openComment => exact (h.take.report _).take
  | token | eof => exact h.take

theorem toParser_advance (r : Reporter β σ) : r.advance.toParser = r.toParser.advance :=
  (Mirrors.refl r).advance.parser

/-- What is not the end of the text is taken. -/
theorem left_advance_lt (h : ∀ pos, r.current ≠ .eof pos) :
    r.advance.toParser.left < r.toParser.left := by
  rw [toParser_advance]
  exact Parser.left_advance_lt h

end Mirrors

/-! ## Finding the way after a fault -/

section Recovery

variable {β σ : Type} [NetworkBuilder β] [Sink σ]

/-- Pass over semicolons, each of which is one too many. -/
def extraSemicolons (r : Reporter β σ) : Reporter β σ :=
  match _h : r.current with
  | .token t =>
    match t.lexeme with
    | .semicolon => extraSemicolons (r.report .extraSemicolon).advance
    | _ => r
  | .openComment _ | .eof _ => r
termination_by r.toParser.left
decreasing_by exact left_advance_lt (r := r.report .extraSemicolon) (by simp [_h])

/-- Go on behind the next semicolon and those that follow it, or at the end of the block. -/
def recoverInBlock (r : Reporter β σ) : Reporter β σ :=
  match _h : r.current with
  | .token t =>
    match t.lexeme with
    | .keyword .endBlock => r
    | .semicolon => r.advance.extraSemicolons
    | _ => recoverInBlock r.advance
  | .openComment _ => recoverInBlock r.advance
  | .eof _ => r
termination_by r.toParser.left
decreasing_by all_goals exact left_advance_lt (by simp [_h])

/--
Go on at the next block that was not entered, or at the keyword that ends the file. Blocks that
start again are reported on the way.
-/
def recoverOutOfBlock (r : Reporter β σ) : Reporter β σ :=
  match _h : r.current with
  | .token t =>
    match t.lexeme with
    | .keyword .mainEnd => r
    | .keyword k =>
      match Block.ofKeyword? k with
      | some b =>
        if b ∈ r.entered then recoverOutOfBlock (r.report b.duplicateError).advance else r
      | none => recoverOutOfBlock r.advance
    | _ => recoverOutOfBlock r.advance
  | .openComment _ => recoverOutOfBlock r.advance
  | .eof _ => r
termination_by r.toParser.left
decreasing_by
  · exact left_advance_lt (r := r.report b.duplicateError) (by simp [_h])
  all_goals exact left_advance_lt (by simp [_h])

/-- Report an error, and go on as its plan says. -/
def syntaxError (r : Reporter β σ) (error : SyntaxError) : Reporter β σ :=
  let reported := r.report error
  let passed := if error.plan.advance then reported.advance else reported
  match error.plan.recovery with
  | .stay => passed
  | .inBlock => passed.recoverInBlock
  | .outOfBlock => passed.recoverOutOfBlock

variable {r q : Reporter β σ} {p : Parser β}

theorem Mirrors.extraSemicolons (h : r.Mirrors q p) :
    r.Mirrors q.extraSemicolons p.extraSemicolons := by
  -- the induction is on the loop of the reporter; the parser takes the same branch in each round
  fun_induction Reporter.extraSemicolons q generalizing p with
  | case1 q t hcurrent ht ih =>
      rw [Parser.extraSemicolons_eq, h.current_eq, hcurrent]
      simp only [ht]
      exact ih (h.report _).advance
  | case2 q t hcurrent ht =>
      rw [Parser.extraSemicolons_eq, h.current_eq, hcurrent]
      simp only []
      exact h
  | case3 q pos hcurrent | case4 q pos hcurrent =>
      rw [Parser.extraSemicolons_eq, h.current_eq, hcurrent]
      exact h

theorem Mirrors.recoverInBlock (h : r.Mirrors q p) :
    r.Mirrors q.recoverInBlock p.recoverInBlock := by
  fun_induction Reporter.recoverInBlock q generalizing p with
  | case1 q t hcurrent ht =>
      rw [Parser.recoverInBlock_eq, h.current_eq, hcurrent]
      simp only [ht]
      exact h
  | case2 q t hcurrent ht =>
      rw [Parser.recoverInBlock_eq, h.current_eq, hcurrent]
      simp only [ht]
      exact h.advance.extraSemicolons
  | case3 q t hcurrent hend hsemicolon ih =>
      rw [Parser.recoverInBlock_eq, h.current_eq, hcurrent]
      simp only []
      exact ih h.advance
  | case4 q pos hcurrent ih =>
      rw [Parser.recoverInBlock_eq, h.current_eq, hcurrent]
      exact ih h.advance
  | case5 q pos hcurrent =>
      rw [Parser.recoverInBlock_eq, h.current_eq, hcurrent]
      exact h

theorem Mirrors.recoverOutOfBlock (h : r.Mirrors q p) :
    r.Mirrors q.recoverOutOfBlock p.recoverOutOfBlock := by
  fun_induction Reporter.recoverOutOfBlock q generalizing p with
  | case1 q t hcurrent ht =>
      rw [Parser.recoverOutOfBlock_eq, h.current_eq, hcurrent]
      simp only [ht]
      exact h
  | case2 q t hcurrent k hk ht b hb hmem ih =>
      rw [Parser.recoverOutOfBlock_eq, h.current_eq, hcurrent, h.entered_eq]
      simp only [ht, hb, hmem, if_true]
      exact ih (h.report _).advance
  | case3 q t hcurrent k hk ht b hb hmem =>
      rw [Parser.recoverOutOfBlock_eq, h.current_eq, hcurrent, h.entered_eq]
      simp only [ht, hb, hmem, if_false]
      exact h
  | case4 q t hcurrent k hk ht hb ih =>
      rw [Parser.recoverOutOfBlock_eq, h.current_eq, hcurrent]
      simp only [ht, hb]
      exact ih h.advance
  | case5 q t hcurrent hmain hother ih =>
      rw [Parser.recoverOutOfBlock_eq, h.current_eq, hcurrent]
      simp only []
      exact ih h.advance
  | case6 q pos hcurrent ih =>
      rw [Parser.recoverOutOfBlock_eq, h.current_eq, hcurrent]
      exact ih h.advance
  | case7 q pos hcurrent =>
      rw [Parser.recoverOutOfBlock_eq, h.current_eq, hcurrent]
      exact h

theorem Mirrors.syntaxError (h : r.Mirrors q p) (error : SyntaxError) :
    r.Mirrors (q.syntaxError error) (p.syntaxError error) := by
  have hreport := h.report error
  have hpassed : r.Mirrors
      (if error.plan.advance then (q.report error).advance else q.report error)
      (if error.plan.advance then (p.report error).advance else p.report error) := by
    split
    · exact hreport.advance
    · exact hreport
  rw [Reporter.syntaxError, Parser.syntaxError]
  cases error.plan.recovery with
  | stay => exact hpassed
  | inBlock => exact hpassed.recoverInBlock
  | outOfBlock => exact hpassed.recoverOutOfBlock

end Recovery

end Reporter

/-! ## Trials -/

/--
Reads a part of a declaration. A trial that fails has reported and written why, and found its way
from there.
-/
abbrev Trial (β σ α : Type) := EStateM Unit (Reporter β σ) α

namespace Trial

section Steps

variable {α β σ : Type} [NetworkBuilder β] [Sink σ]

/-- Report an error, and give up. -/
def fail (error : SyntaxError) : Trial β σ α := fun r => .error () (r.syntaxError error)

/-- Pass over a mark. -/
def mark (lexeme : Lexeme) (error : SyntaxError) : Trial β σ Unit := fun r =>
  if r.sees lexeme then .ok () r.advance else fail error r

/-- Read a name. -/
def word (error : SyntaxError) : Trial β σ Word := fun r =>
  match r.current with
  | .token ⟨.name text, pos⟩ => .ok ⟨text, pos⟩ r.advance
  | _ => fail error r

/-- Read a number. -/
def numeral (error : SyntaxError) : Trial β σ Numeral := fun r =>
  match r.current with
  | .token ⟨.number value, pos⟩ => .ok ⟨value, pos⟩ r.advance
  | _ => fail error r

/-- If a mark is next, pass over it and read what must follow it. -/
def after? (lexeme : Lexeme) (a : Trial β σ α) : Trial β σ (Option α) := fun r =>
  if r.sees lexeme then (some <$> a) r.advance else .ok none r

end Steps

variable {α β γ σ : Type} [Sink σ]

/-- What comes of a trial mirrors what comes of an attempt. -/
inductive Agrees (r : Reporter β σ) :
    EStateM.Result Unit (Reporter β σ) α → EStateM.Result Unit (Parser β) α → Prop
  | ok (x : α) {q : Reporter β σ} {p : Parser β} (h : r.Mirrors q p) : Agrees r (.ok x q) (.ok x p)
  | error {q : Reporter β σ} {p : Parser β} (h : r.Mirrors q p) :
      Agrees r (.error () q) (.error () p)

/-- A trial at what is attempted. -/
def Matches (a : Trial β σ α) (b : Attempt β α) : Prop :=
  ∀ r q p, r.Mirrors q p → Agrees r (a q) (b p)

theorem matches_pure (x : α) : Matches (pure x : Trial β σ α) (pure x) :=
  fun _ _ _ h => .ok x h

theorem Matches.bind {a : Trial β σ α} {b : Attempt β α} {f : α → Trial β σ γ}
    {g : α → Attempt β γ} (ha : Matches a b) (hf : ∀ x, Matches (f x) (g x)) :
    Matches (a >>= f) (b >>= g) := by
  intro r q p h
  have hrun := ha r q p h
  simp only [Bind.bind, EStateM.bind]
  generalize a q = x, b p = y at hrun ⊢
  cases hrun with
  | ok x h => exact hf x _ _ _ h
  | error h => exact .error h

theorem Matches.map {a : Trial β σ α} {b : Attempt β α} (ha : Matches a b) (f : α → γ) :
    Matches (f <$> a) (f <$> b) := by
  intro r q p h
  have hrun := ha r q p h
  simp only [Functor.map, EStateM.map]
  generalize a q = x, b p = y at hrun ⊢
  cases hrun with
  | ok x h => exact .ok _ h
  | error h => exact .error h

variable [NetworkBuilder β]

theorem matches_fail (error : SyntaxError) :
    Matches (fail error : Trial β σ α) (Attempt.fail error) :=
  fun _ _ _ h => .error (h.syntaxError error)

theorem matches_mark (lexeme : Lexeme) (error : SyntaxError) :
    Matches (mark lexeme error : Trial β σ Unit) (Attempt.mark lexeme error) := by
  intro r q p h
  rw [mark, Attempt.mark, h.sees_eq]
  split
  · exact .ok () h.advance
  · exact matches_fail error _ _ _ h

theorem matches_word (error : SyntaxError) :
    Matches (word error : Trial β σ Word) (Attempt.word error) := by
  intro r q p h
  rw [word, Attempt.word, h.current_eq]
  cases q.current with
  | openComment | eof => exact matches_fail error _ _ _ h
  | token t =>
      obtain ⟨lexeme, pos⟩ := t
      cases lexeme with
      | name text => exact .ok _ h.advance
      | comma | semicolon | equals | dash | dot | keyword | number =>
          exact matches_fail error _ _ _ h

theorem matches_numeral (error : SyntaxError) :
    Matches (numeral error : Trial β σ Numeral) (Attempt.numeral error) := by
  intro r q p h
  rw [numeral, Attempt.numeral, h.current_eq]
  cases q.current with
  | openComment | eof => exact matches_fail error _ _ _ h
  | token t =>
      obtain ⟨lexeme, pos⟩ := t
      cases lexeme with
      | number value => exact .ok _ h.advance
      | comma | semicolon | equals | dash | dot | keyword | name =>
          exact matches_fail error _ _ _ h

theorem Matches.after? {a : Trial β σ α} {b : Attempt β α} (ha : Matches a b) (lexeme : Lexeme) :
    Matches (Trial.after? lexeme a) (Attempt.after? lexeme b) := by
  intro r q p h
  rw [Trial.after?, Attempt.after?, h.sees_eq]
  split
  · exact ha.map some _ _ _ h.advance
  · exact .ok none h

end Trial

section Declarations

variable {β σ : Type} [NetworkBuilder β] [Sink σ]

/-- Read a device, behind its type. -/
def DeviceDecl.trial (kind : Word) : Trial β σ DeviceDecl := do
  let qualifier ← Trial.after? .comma (Trial.numeral .noNumber)
  Trial.mark .equals .noEquals
  let name ← Trial.word .invalidDeviceName
  Trial.mark .semicolon .noSemicolon
  return { kind, qualifier, name }

/-- Read a connection, behind its first device. -/
def ConnectionDecl.trial (outDevice : Word) : Trial β σ ConnectionDecl := do
  let outPin ← Trial.after? .dot (Trial.word .invalidOutputLabel)
  Trial.mark .dash .noDash
  let inDevice ← Trial.word .invalidDeviceName
  Trial.mark .dot .noDot
  let inPin ← Trial.word .invalidInputLabel
  Trial.mark .semicolon .noSemicolon
  return { outDevice, outPin, inDevice, inPin }

/-- Read a monitor, behind its device. -/
def MonitorDecl.trial (device : Word) : Trial β σ MonitorDecl := do
  let pin ← Trial.after? .dot (Trial.word .invalidOutputLabel)
  Trial.mark .semicolon .noSemicolon
  return { device, pin }

/-- Read a declaration of a block, behind its first name. -/
def Block.trial : Block → Word → Trial β σ Declaration
  | devices, first => .device <$> DeviceDecl.trial first
  | connections, first => .connection <$> ConnectionDecl.trial first
  | monitor, first => .monitor <$> MonitorDecl.trial first

/-- **A declaration is tried as it is attempted.** -/
theorem Block.matches_trial (b : Block) (first : Word) :
    Trial.Matches (b.trial first : Trial β σ Declaration) (b.attempt first) := by
  open Trial in
  cases b with
  | devices =>
      exact (((matches_numeral _).after? _).bind fun _ => (matches_mark _ _).bind fun _ =>
        (matches_word _).bind fun _ => (matches_mark _ _).bind fun _ => matches_pure _).map _
  | connections =>
      exact (((matches_word _).after? _).bind fun _ => (matches_mark _ _).bind fun _ =>
        (matches_word _).bind fun _ => (matches_mark _ _).bind fun _ =>
          (matches_word _).bind fun _ => (matches_mark _ _).bind fun _ => matches_pure _).map _
  | monitor =>
      exact (((matches_word _).after? _).bind fun _ => (matches_mark _ _).bind fun _ =>
        matches_pure _).map _

end Declarations

/-! ## The reporter, a whole text -/

namespace Reporter

variable {β σ : Type} [NetworkBuilder β] [Sink σ] {r q : Reporter β σ} {p : Parser β}

/-- Read a declaration from its first name on, and hand it over at once. -/
def declaration (r : Reporter β σ) (b : Block) (first : Word) : Reporter β σ :=
  match b.trial first r.advance with
  | .ok d q => q.act (.declared d)
  | .error _ q => q

theorem Mirrors.declaration (h : r.Mirrors q p) (b : Block) (first : Word) :
    r.Mirrors (q.declaration b first) (p.declaration b first) := by
  have hrun := b.matches_trial first _ _ _ h.advance
  rw [Reporter.declaration, Parser.declaration]
  generalize b.trial first q.advance = x, b.attempt first p.advance = y at hrun ⊢
  cases hrun with
  | ok d h => exact h.act _
  | error h => exact h

theorem left_declaration_lt (b : Block) (first : Word) (h : ∀ pos, r.current ≠ .eof pos) :
    (r.declaration b first).toParser.left < r.toParser.left := by
  rw [((Mirrors.refl r).declaration b first).parser]
  exact (r.toParser.left_declaration_le b first).trans_lt (Parser.left_advance_lt h)

theorem left_extraSemicolons_lt {t : Token} (h : r.current = .token t)
    (ht : t.lexeme = .semicolon) : r.extraSemicolons.toParser.left < r.toParser.left := by
  rw [(Mirrors.refl r).extraSemicolons.parser]
  exact Parser.left_extraSemicolons_lt h ht

theorem left_strayError_lt (b : Block) (hend : r.sees (.keyword .endBlock) = false)
    (heof : ∀ pos, r.current ≠ .eof pos) :
    (r.syntaxError b.strayError).toParser.left < r.toParser.left := by
  rw [((Mirrors.refl r).syntaxError _).parser]
  exact Parser.left_strayError_lt b hend heof

/-- Read the declarations of a block up to its end, behind its keyword. -/
def body (b : Block) (r : Reporter β σ) : Reporter β σ :=
  match _h : r.current with
  | .token t =>
    match _ht : t.lexeme with
    | .name text => body b (r.declaration b ⟨text, t.pos⟩)
    | .keyword .endBlock => (r.act (.closed b t)).advance
    | .keyword _ => r.syntaxError .noEnd
    | .semicolon => body b r.extraSemicolons
    | .comma | .equals | .dash | .dot | .number _ => body b (r.syntaxError b.strayError)
  | .openComment _ => body b (r.syntaxError b.strayError)
  | .eof _ => r.syntaxError .noEnd
termination_by r.toParser.left
decreasing_by
  · exact left_declaration_lt b _ (by simp [_h])
  · exact left_extraSemicolons_lt _h _ht
  all_goals exact left_strayError_lt b (by simp [Parser.sees, *]) (by simp [_h])

/-- Report that a block is missing, unless its keyword is next. -/
def seek (r : Reporter β σ) (b : Block) : Reporter β σ :=
  if r.sees (.keyword b.keyword) then r else r.syntaxError b.missingError

/-- Read the blocks that are still to come, and the end of the file. -/
def blocks : List Block → Reporter β σ → Reporter β σ
  | [], r => if r.sees (.keyword .mainEnd) then r else r.syntaxError .noMainEnd
  | b :: bs, r =>
    let sought := r.seek b
    if sought.sees (.keyword b.keyword) then blocks bs (body b (sought.advance.enter b))
    else blocks bs sought

/-- Read a text, and report to a sink. -/
def run (names : NameTable) (builder : β) (text : String) (locations : Bool) (sink : σ) :
    Reporter β σ :=
  blocks Block.all (start names builder text locations sink).advance

theorem Mirrors.body (h : r.Mirrors q p) (b : Block) : r.Mirrors (q.body b) (p.body b) := by
  fun_induction Reporter.body b q generalizing p with
  | case1 q t hcurrent text ht ih =>
      rw [Parser.body_eq, h.current_eq, hcurrent]
      simp only [ht]
      exact ih (h.declaration b _)
  | case2 q t hcurrent ht =>
      rw [Parser.body_eq, h.current_eq, hcurrent]
      simp only [ht]
      exact (h.act _).advance
  | case3 q t hcurrent k hend ht =>
      rw [Parser.body_eq, h.current_eq, hcurrent]
      simp only [ht]
      exact h.syntaxError _
  | case4 q t hcurrent ht ih =>
      rw [Parser.body_eq, h.current_eq, hcurrent]
      simp only [ht]
      exact ih h.extraSemicolons
  -- what cannot start a declaration is reported as a stray
  | case5 q t hcurrent ht ih | case6 q t hcurrent ht ih | case7 q t hcurrent ht ih
  | case8 q t hcurrent ht ih | case9 q t hcurrent _ ht ih =>
      rw [Parser.body_eq, h.current_eq, hcurrent]
      simp only [ht]
      exact ih (h.syntaxError _)
  | case10 q pos hcurrent ih =>
      rw [Parser.body_eq, h.current_eq, hcurrent]
      exact ih (h.syntaxError _)
  | case11 q pos hcurrent =>
      rw [Parser.body_eq, h.current_eq, hcurrent]
      exact h.syntaxError _

theorem Mirrors.seek (h : r.Mirrors q p) (b : Block) : r.Mirrors (q.seek b) (p.seek b) := by
  rw [Reporter.seek, Parser.seek, h.sees_eq]
  split
  · exact h
  · exact h.syntaxError _

theorem Mirrors.blocks (h : r.Mirrors q p) (bs : List Block) :
    r.Mirrors (q.blocks bs) (p.blocks bs) := by
  induction bs generalizing q p with
  | nil =>
      rw [Reporter.blocks, Parser.blocks, h.sees_eq]
      split
      · exact h
      · exact h.syntaxError _
  | cons b bs ih =>
      have hsought := h.seek b
      rw [Reporter.blocks, Parser.blocks, hsought.sees_eq]
      split
      · exact ih ((hsought.advance.enter b).body b)
      · exact ih hsought

/-- **A reporter does what the parser does, and writes what the parser makes.** -/
theorem mirrors_run (names : NameTable) (builder : β) (text : String) (locations : Bool)
    (sink : σ) :
    (start names builder text locations sink).Mirrors (run names builder text locations sink)
      (Parser.run names builder text) :=
  (Mirrors.refl (start names builder text locations sink)).advance.blocks Block.all

end Reporter

end LogicNet
