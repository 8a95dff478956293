import LogicNet.Proofs.Stopping

/-!
# Reading within limits

A parser that finds its way after a fault calls itself: to take a symbol it may have to report a
comment that is left open, to report is to find the way again, and to find the way is to take
symbols. The parser that reads a text once has this call in its `advance` already, and each of its
loops is known to end because `Parser.left` gets less. Neither says how deep calls are nested, or
that a loop never takes a symbol behind the end of the text.

Here is the same parser with limits. Every call is counted against a depth and every round of a loop
against a number of rounds; a symbol is not taken once the end of the text was, and no decision is
made at a comment which is left open. What breaks a limit is a `Breach`, and stops the parser.

Nothing does (`Procedure.file_within_limits`). Taking a symbol needs no round of any loop
(`Procedure.nextSymbol_apply`), so no way is searched from there, and five nested calls are enough
for every text; and no loop goes round more often than there are characters in the text, since each
round takes a symbol (`Procedure.loop_of_turns`).
-/

namespace LogicNet

open Text (Position)

/-- What a parser that reads within limits is stopped for. -/
inductive Breach where
  /-- A call that is nested too deep. -/
  | depth
  /-- A round too many of a loop. -/
  | rounds
  /-- A decision that is made at a comment which is left open. -/
  | openComment
  /-- A symbol that is taken behind the end of the text. -/
  | pastEnd
deriving DecidableEq

/-- Whether the last symbol that was taken is the end of the text. -/
def Parser.exhausted {β : Type} (p : Parser β) : Bool :=
  match p.taken.getLast? with
  | some (.eof _) => true
  | _ => false

/-- A part of a parser, which may be stopped. -/
abbrev Procedure (β α : Type) := EStateM Breach (Parser β) α

namespace Procedure

/-! ## The parser, with limits -/

section Calls

variable {β : Type}

/-- Take a symbol from the scanner, unless the end of the text was taken. -/
def take : Procedure β Unit := fun p =>
  if p.exhausted then .error .pastEnd p else .ok () p.take

/-- Look at the token to decide by. At the end of the text there is none. -/
def look : Procedure β (Option Token) := fun p =>
  match p.current with
  | .token t => .ok (some t) p
  | .eof _ => .ok none p
  | .openComment _ => .error .openComment p

/-- Whether a lexeme is next. -/
def sees (lexeme : Lexeme) : Procedure β Bool := do
  return (← look).map Token.lexeme == some lexeme

/-- Go round as long as the round says so, but not more often than the limit allows. -/
def loop : Nat → Procedure β Bool → Procedure β Unit
  | 0, _ => throw .rounds
  | n + 1, round => do if ← round then loop n round

variable [NetworkBuilder β] (n : Nat)

/-! Each of these calls may go `n` rounds in each of its loops, and make calls to a given depth. -/

mutual

/-- Go on to the next symbol. A comment that is left open is reported and passed over. -/
def nextSymbol : Nat → Procedure β Unit
  | 0 => throw .depth
  | d + 1 => do
    take
    match (← get).current with
    | .openComment _ => do
      syntaxError d .unterminatedComment
      take
    | .token _ | .eof _ => pure ()

/-- Pass over semicolons, each of which is one too many. -/
def extraSemicolons : Nat → Procedure β Unit
  | 0 => throw .depth
  | d + 1 => loop n do
    match ← look with
    | some ⟨.semicolon, _⟩ => do
      syntaxError d .extraSemicolon
      nextSymbol d
      return true
    | _ => return false

/-- Go on behind the next semicolon and those that follow it, or at the end of the block. -/
def recoverInBlock : Nat → Procedure β Unit
  | 0 => throw .depth
  | d + 1 => loop n do
    match ← look with
    | none | some ⟨.keyword .endBlock, _⟩ => return false
    | some ⟨.semicolon, _⟩ => do
      nextSymbol d
      extraSemicolons d
      return false
    | some _ => do
      nextSymbol d
      return true

/-- Go on at the next block that was not entered, or at the keyword that ends the file. -/
def recoverOutOfBlock : Nat → Procedure β Unit
  | 0 => throw .depth
  | d + 1 => loop n do
    match ← look with
    | none | some ⟨.keyword .mainEnd, _⟩ => return false
    | some ⟨.keyword k, _⟩ =>
      match Block.ofKeyword? k with
      | some b =>
        if b ∈ (← get).entered then do
          modify (·.report b.duplicateError)
          nextSymbol d
          return true
        else return false
      | none => do
        nextSymbol d
        return true
    | some _ => do
      nextSymbol d
      return true

/-- Report an error, and go on as its plan says. -/
def syntaxError : Nat → SyntaxError → Procedure β Unit
  | 0, _ => throw .depth
  | d + 1, error => do
    modify (·.report error)
    if error.plan.advance then nextSymbol d
    match error.plan.recovery with
    | .stay => pure ()
    | .inBlock => recoverInBlock d
    | .outOfBlock => recoverOutOfBlock d

end

variable (d : Nat)

/-! ### Declarations, a part of which may fail -/

/-- Report an error, and give up. -/
def fail {α : Type} (error : SyntaxError) : OptionT (Procedure β) α := do
  OptionT.lift (syntaxError n d error)
  failure

/-- Pass over a mark. -/
def mark (lexeme : Lexeme) (error : SyntaxError) : OptionT (Procedure β) Unit := do
  if ← OptionT.lift (sees lexeme) then OptionT.lift (nextSymbol n d) else fail n d error

/-- Read a name. -/
def word (error : SyntaxError) : OptionT (Procedure β) Word := do
  match ← OptionT.lift look with
  | some ⟨.name text, pos⟩ => do
    OptionT.lift (nextSymbol n d)
    return ⟨text, pos⟩
  | _ => fail n d error

/-- Read a number. -/
def numeral (error : SyntaxError) : OptionT (Procedure β) Numeral := do
  match ← OptionT.lift look with
  | some ⟨.number value, pos⟩ => do
    OptionT.lift (nextSymbol n d)
    return ⟨value, pos⟩
  | _ => fail n d error

/-- If a mark is next, pass over it and read what must follow it. -/
def after? {α : Type} (lexeme : Lexeme) (part : OptionT (Procedure β) α) :
    OptionT (Procedure β) (Option α) := do
  if ← OptionT.lift (sees lexeme) then do
    OptionT.lift (nextSymbol n d)
    some <$> part
  else return none

/-- Read a device, behind its type. -/
def device (kind : Word) : OptionT (Procedure β) DeviceDecl := do
  let qualifier ← after? n d .comma (numeral n d .noNumber)
  mark n d .equals .noEquals
  let name ← word n d .invalidDeviceName
  mark n d .semicolon .noSemicolon
  return { kind, qualifier, name }

/-- Read a connection, behind its first device. -/
def connection (outDevice : Word) : OptionT (Procedure β) ConnectionDecl := do
  let outPin ← after? n d .dot (word n d .invalidOutputLabel)
  mark n d .dash .noDash
  let inDevice ← word n d .invalidDeviceName
  mark n d .dot .noDot
  let inPin ← word n d .invalidInputLabel
  mark n d .semicolon .noSemicolon
  return { outDevice, outPin, inDevice, inPin }

/-- Read a monitor, behind its device. -/
def monitor (device : Word) : OptionT (Procedure β) MonitorDecl := do
  let pin ← after? n d .dot (word n d .invalidOutputLabel)
  mark n d .semicolon .noSemicolon
  return { device, pin }

/-- Read what a block declares, behind its first name. -/
def declared : Block → Word → OptionT (Procedure β) Declaration
  | .devices, first => .device <$> device n d first
  | .connections, first => .connection <$> connection n d first
  | .monitor, first => .monitor <$> monitor n d first

/-! ### Blocks -/

/-- Read a declaration from its first name on, and hand it over at once. -/
def declaration (b : Block) (first : Word) : Procedure β Unit := do
  nextSymbol n d
  match ← (declared n d b first).run with
  | some x => modify (·.act (.declared x))
  | none => pure ()

/-- Read declarations as long as names are next. -/
def declarations (b : Block) : Procedure β Unit :=
  loop n do
    match ← look with
    | some ⟨.name text, pos⟩ => do
      declaration n d b ⟨text, pos⟩
      return true
    | _ => return false

/-- Read the declarations of a block up to its end, behind its keyword. -/
def body (b : Block) : Procedure β Unit :=
  loop n do
    declarations n d b
    match ← look with
    | some ⟨.keyword .endBlock, pos⟩ => do
      modify (·.act (.closed b ⟨.keyword .endBlock, pos⟩))
      nextSymbol n d
      return false
    | some ⟨.keyword _, _⟩ | none => do
      syntaxError n d .noEnd
      return false
    | some ⟨.semicolon, _⟩ => do
      extraSemicolons n d
      return true
    | some _ => do
      syntaxError n d b.strayError
      return true

/-- Report an error, unless a lexeme is next. -/
def seek (lexeme : Lexeme) (error : SyntaxError) : Procedure β Unit := do
  unless ← sees lexeme do syntaxError n d error

/-- Read the blocks that are still to come, and the end of the file. -/
def blocks : List Block → Procedure β Unit
  | [] => seek n d (.keyword .mainEnd) .noMainEnd
  | b :: bs => do
    seek n d (.keyword b.keyword) b.missingError
    if ← sees (.keyword b.keyword) then do
      nextSymbol n d
      modify (·.enter b)
      body n d b
    blocks bs

/-- Read a text. -/
def file : Procedure β Unit := do
  nextSymbol n d
  blocks n d Block.all

end Calls

/-! ## Single calls -/

section Single

variable {α γ β : Type} {p q : Parser β} {t : Token}

theorem bind_of_ok {m : Procedure β α} {f : α → Procedure β γ} {x : α} (h : m p = .ok x q) :
    (m >>= f) p = f x q := by
  simp only [bind, EStateM.bind, h]

theorem bind_of_error {m : Procedure β α} {f : α → Procedure β γ} {b : Breach}
    (h : m p = .error b q) : (m >>= f) p = .error b q := by
  simp only [bind, EStateM.bind, h]

theorem get_bind (f : Parser β → Procedure β γ) (p : Parser β) : (get >>= f) p = f p p := rfl

theorem modify_bind (g : Parser β → Parser β) (f : Unit → Procedure β γ) (p : Parser β) :
    ((modify g : Procedure β Unit) >>= f) p = f () (g p) := rfl

theorem look_of_token (h : p.current = .token t) : look p = .ok (some t) p := by
  rw [look, h]

theorem look_of_eof {pos : Position} (h : p.current = .eof pos) : look p = .ok none p := by
  rw [look, h]

theorem exhausted_of_openComment {pos : Position} (h : p.take.current = .openComment pos) :
    p.take.exhausted = false := by
  have hlast : p.take.taken.getLast? = some p.take.current := List.getLast?_concat
  rw [Parser.exhausted, hlast, h]

variable [NetworkBuilder β]

/-- An error without a way to find costs one call. -/
theorem syntaxError_of_stay {error : SyntaxError} (hadvance : error.plan.advance = false)
    (hstay : error.plan.recovery = .stay) (n d : Nat) (p : Parser β) :
    syntaxError n (d + 1) error p = .ok () (p.syntaxError error) := by
  rw [syntaxError, modify_bind]
  simp only [hadvance, hstay, Parser.syntaxError]
  rfl

/-- **A symbol is taken with two calls and without a round of any loop**, whatever is next. -/
theorem nextSymbol_apply (n d : Nat) (p : Parser β) :
    nextSymbol n (d + 2) p = if p.exhausted then .error .pastEnd p else .ok () p.advance := by
  rw [nextSymbol]
  by_cases h : p.exhausted
  · have htake : take p = .error .pastEnd p := if_pos h
    rw [if_pos h, bind_of_error htake]
  · have htake : take p = .ok () p.take := if_neg h
    rw [if_neg h, bind_of_ok htake, get_bind, Parser.advance]
    cases hcurrent : p.take.current with
    | token | eof => rfl
    | openComment pos =>
        simp only []
        rw [bind_of_ok (syntaxError_of_stay rfl rfl n d p.take)]
        exact if_neg (Bool.eq_false_iff.mp (exhausted_of_openComment hcurrent))

end Single

/-! ## Loops -/

section Loops

variable {β : Type} {names : NameTable} {s : TokenStream} {n : Nat} {p q : Parser β} {t : Token}

/-- A parser stands somewhere in a stream, and has less to take than there are rounds. -/
structure Standing (names : NameTable) (s : TokenStream) (n : Nat) (p : Parser β) : Prop where
  stands : ∃ ts, Parser.At names s ts p
  few : p.left < n

theorem Standing.current_cases (h : Standing names s n p) :
    (∃ t, p.current = .token t) ∨ ∃ pos, p.current = .eof pos := by
  obtain ⟨ts, hat⟩ := h.stands
  cases hat with
  | token _ hcurrent => exact .inl ⟨_, hcurrent⟩
  | eof hcurrent => exact .inr ⟨_, hcurrent⟩

theorem Standing.exhausted_of_token (h : Standing names s n p) (ht : p.current = .token t) :
    p.exhausted = false := by
  obtain ⟨ts, hat⟩ := h.stands
  rw [Parser.exhausted, hat.taken_eq_concat.2, ht]

/-- Wherever dealing with something takes no symbol, the parser stays where it stands. -/
theorem Standing.congr (h : Standing names s n p) (hcurrent : q.current = p.current)
    (hscanner : q.scanner = p.scanner) (htaken : q.taken = p.taken) : Standing names s n q := by
  obtain ⟨⟨ts, hat⟩, hfew⟩ := h
  refine ⟨⟨ts, hat.congr hcurrent hscanner htaken⟩, ?_⟩
  rwa [Parser.left, hcurrent, hscanner]

/-- What comes of a round: the loop ends, or goes on with less to take. -/
inductive Turns (names : NameTable) (s : TokenStream) (n : Nat) (round : Procedure β Bool)
    (R : Parser β → Parser β → Prop) (p : Parser β) : Prop
  | stop {q : Parser β} (hrun : round p = .ok false q) (hq : R p q) : Turns names s n round R p
  | again {q : Parser β} (hrun : round p = .ok true q) (hq : Standing names s n q)
      (hless : q.left < p.left) (hmore : ∀ r, R q r → R p r) : Turns names s n round R p

/-- **A loop ends if each round that goes on leaves less to take.** -/
theorem loop_of_turns {round : Procedure β Bool} {R : Parser β → Parser β → Prop}
    (hround : ∀ p, Standing names s n p → Turns names s n round R p)
    (h : Standing names s n p) : ∃ q, loop n round p = .ok () q ∧ R p q := by
  -- the limit may get less with each round, but not faster than what there is to take
  suffices hloop : ∀ k p, Standing names s n p → p.left < k →
      ∃ q, loop k round p = .ok () q ∧ R p q from hloop n p h h.few
  intro k
  induction k with
  | zero => exact fun p _ hfew => absurd hfew (Nat.not_lt_zero _)
  | succ k ih =>
      intro p h hfew
      rw [loop]
      cases hround p h with
      | stop hrun hq => exact ⟨_, bind_of_ok hrun, hq⟩
      | again hrun hq hless hmore =>
          obtain ⟨r, hr, hR⟩ := ih _ hq (Nat.lt_of_lt_of_le hless (Nat.le_of_lt_succ hfew))
          exact ⟨r, (bind_of_ok hrun).trans hr, hmore r hR⟩

theorem loop_eq {round : Procedure β Bool} {f : Parser β → Parser β}
    (hround : ∀ p, Standing names s n p → Turns names s n round (fun p q => q = f p) p)
    (h : Standing names s n p) : loop n round p = .ok () (f p) := by
  obtain ⟨q, hloop, rfl⟩ := loop_of_turns hround h
  exact hloop

variable [NetworkBuilder β]

theorem standing_act (h : Standing names s n p) (item : Item) : Standing names s n (p.act item) :=
  h.congr rfl rfl rfl

theorem standing_report (h : Standing names s n p) (error : SyntaxError) :
    Standing names s n (p.report error) := standing_act h _

theorem Standing.of_follows {o : Outline} {entered : List Block} (h : Standing names s n p)
    (hq : Parser.Follows names s p o entered q) (hle : q.left ≤ p.left) : Standing names s n q :=
  ⟨⟨_, hq.stands⟩, hle.trans_lt h.few⟩

theorem standing_advance (h : Standing names s n p) (ht : p.current = .token t) :
    Standing names s n p.advance := by
  obtain ⟨ts, hat⟩ := h.stands
  obtain ⟨us, rfl, hbefore⟩ := hat.eq_cons ht
  exact h.of_follows hbefore.follows_advance p.left_advance_le

theorem standing_extraSemicolons (h : Standing names s n p) :
    Standing names s n p.extraSemicolons := by
  obtain ⟨ts, hat⟩ := h.stands
  exact h.of_follows (Parser.follows_extraSemicolons hat) p.left_extraSemicolons_le

theorem standing_syntaxError (h : Standing names s n p) {error : SyntaxError}
    (hadvance : error.plan.advance = false) : Standing names s n (p.syntaxError error) := by
  obtain ⟨ts, hat⟩ := h.stands
  exact h.of_follows (Parser.follows_syntaxError hat rfl hadvance) (p.left_syntaxError_le error)

/-- Before the end of the text there is a symbol to take. -/
theorem nextSymbol_eq (h : Standing names s n p) (ht : p.current = .token t) (d : Nat) :
    nextSymbol n (d + 2) p = .ok () p.advance := by
  rw [nextSymbol_apply, h.exhausted_of_token ht]
  rfl

end Loops

/-! ## Finding the way after a fault -/

section Recovery

variable {β : Type} [NetworkBuilder β] {names : NameTable} {s : TokenStream} {n : Nat}
  {p q : Parser β} {t : Token}

/-- A round that takes a symbol and goes on. -/
theorem turns_of_next {round : Procedure β Bool} {f : Parser β → Parser β} {d : Nat}
    (hq : Standing names s n q) (ht : q.current = .token t) (hleft : q.left = p.left)
    (hrun : round p = (do nextSymbol n (d + 2); return true) q) (hf : f p = f q.advance) :
    Turns names s n round (fun p q => q = f p) p := by
  refine .again (q := q.advance) ?_ (standing_advance hq ht) ?_ fun r hr => hr.trans hf.symm
  · rw [hrun, bind_of_ok (nextSymbol_eq hq ht d)]
    rfl
  · rw [← hleft]
    exact Parser.left_advance_lt (by simp [ht])

theorem extraSemicolons_eq (h : Standing names s n p) (d : Nat) :
    extraSemicolons n (d + 3) p = .ok () p.extraSemicolons := by
  refine loop_eq (fun p h => ?_) h
  have hf := p.extraSemicolons_eq
  obtain ⟨⟨lexeme, pos⟩, ht⟩ | ⟨pos, heof⟩ := h.current_cases
  · have hlook := look_of_token ht
    rw [ht] at hf
    cases lexeme with
    | semicolon =>
        refine turns_of_next (d := d) (standing_report h .extraSemicolon) ht rfl ?_ hf
        exact (bind_of_ok hlook).trans (bind_of_ok (syntaxError_of_stay rfl rfl _ _ _))
    | comma | equals | dash | dot | keyword | number | name =>
        exact .stop (bind_of_ok hlook) hf.symm
  · rw [heof] at hf
    exact .stop (bind_of_ok (look_of_eof heof)) hf.symm

theorem recoverInBlock_eq (h : Standing names s n p) (d : Nat) :
    recoverInBlock n (d + 4) p = .ok () p.recoverInBlock := by
  refine loop_eq (fun p h => ?_) h
  have hf := p.recoverInBlock_eq
  obtain ⟨⟨lexeme, pos⟩, ht⟩ | ⟨pos, heof⟩ := h.current_cases
  · have hlook := look_of_token ht
    have hnext := standing_advance h ht
    rw [ht] at hf
    cases lexeme with
    | semicolon =>
        refine .stop (q := p.advance.extraSemicolons) ?_ hf.symm
        refine (bind_of_ok hlook).trans ((bind_of_ok (nextSymbol_eq h ht _)).trans ?_)
        exact bind_of_ok (extraSemicolons_eq hnext d)
    | keyword k =>
        cases k with
        | endBlock => exact .stop (bind_of_ok hlook) hf.symm
        | devices | connections | monitor | mainEnd =>
            exact turns_of_next h ht rfl (bind_of_ok hlook) hf
    | comma | equals | dash | dot | number | name =>
        exact turns_of_next h ht rfl (bind_of_ok hlook) hf
  · rw [heof] at hf
    exact .stop (bind_of_ok (look_of_eof heof)) hf.symm

theorem recoverOutOfBlock_eq (h : Standing names s n p) (d : Nat) :
    recoverOutOfBlock n (d + 3) p = .ok () p.recoverOutOfBlock := by
  refine loop_eq (fun p h => ?_) h
  have hf := p.recoverOutOfBlock_eq
  obtain ⟨⟨lexeme, pos⟩, ht⟩ | ⟨pos, heof⟩ := h.current_cases
  · have hlook := look_of_token ht
    rw [ht] at hf
    cases lexeme with
    | keyword k =>
        cases hof : Block.ofKeyword? k with
        | none =>
            cases k with
            | mainEnd => exact .stop (bind_of_ok hlook) hf.symm
            | endBlock => exact turns_of_next h ht rfl (bind_of_ok hlook) hf
            | devices | connections | monitor => cases hof
        | some b =>
            obtain rfl := Block.ofKeyword?_eq_some_iff.mp hof
            by_cases hb : b ∈ p.entered
            · refine turns_of_next (d := d) (standing_report h b.duplicateError) ht rfl ?_ ?_
              · cases b <;> exact (bind_of_ok hlook).trans (congrFun (if_pos hb) p)
              · cases b <;> exact hf.trans (if_pos hb)
            · refine .stop (q := p) ?_ ?_
              · cases b <;> exact (bind_of_ok hlook).trans (congrFun (if_neg hb) p)
              · cases b <;> exact (hf.trans (if_neg hb)).symm
    | comma | semicolon | equals | dash | dot | number | name =>
        exact turns_of_next h ht rfl (bind_of_ok hlook) hf
  · rw [heof] at hf
    exact .stop (bind_of_ok (look_of_eof heof)) hf.symm

/-- **An error of form is reported and the way is found again** with five calls. -/
theorem syntaxError_eq (h : Standing names s n p) {error : SyntaxError}
    (hadvance : error.plan.advance = false) (d : Nat) :
    syntaxError n (d + 5) error p = .ok () (p.syntaxError error) := by
  have hreport := standing_report h error
  rw [syntaxError, modify_bind]
  simp only [hadvance, Parser.syntaxError]
  cases error.plan.recovery with
  | stay => rfl
  | inBlock => exact recoverInBlock_eq hreport d
  | outOfBlock => exact recoverOutOfBlock_eq hreport (d + 1)

end Recovery

/-! ## Declarations -/

section Declarations

variable {α γ β : Type} {names : NameTable} {s : TokenStream} {n d : Nat} {p q : Parser β}
  {t : Token}

theorem sees_eq (h : Standing names s n p) (lexeme : Lexeme) :
    sees lexeme p = .ok (p.sees lexeme) p := by
  obtain ⟨t, ht⟩ | ⟨pos, heof⟩ := h.current_cases
  · rw [Parser.sees, ht]
    exact bind_of_ok (look_of_token ht)
  · rw [Parser.sees, heof]
    exact bind_of_ok (look_of_eof heof)

theorem exists_token_of_sees {lexeme : Lexeme} (h : p.sees lexeme = true) :
    ∃ t, p.current = .token t := by
  rw [Parser.sees] at h
  split at h
  · next t ht => exact ⟨t, ht⟩
  · cases h
  · cases h

/-- What comes of a part of a declaration is what comes of the attempt at it. -/
inductive Settles (names : NameTable) (s : TokenStream) (n : Nat) :
    EStateM.Result Breach (Parser β) (Option α) → EStateM.Result Unit (Parser β) α → Prop
  | ok {x : α} {q : Parser β} (hq : Standing names s n q) :
      Settles names s n (.ok (some x) q) (.ok x q)
  | error {q : Parser β} (hq : Standing names s n q) :
      Settles names s n (.ok none q) (.error () q)

/-- A part of a declaration, and the attempt at it. -/
def Reads (names : NameTable) (s : TokenStream) (n : Nat) (part : OptionT (Procedure β) α)
    (a : Attempt β α) : Prop :=
  ∀ p, Standing names s n p → Settles names s n (part.run p) (a p)

theorem run_lift {m : Procedure β α} {x : α} (h : m p = .ok x q) :
    (OptionT.lift m).run p = .ok (some x) q := bind_of_ok h

theorem run_lift_bind {m : Procedure β α} {f : α → OptionT (Procedure β) γ} {x : α}
    (h : m p = .ok x q) : (OptionT.lift m >>= f).run p = (f x).run q :=
  bind_of_ok (run_lift h)

theorem reads_pure (x : α) : Reads names s n (pure x) (pure x : Attempt β α) :=
  fun _ h => .ok h

theorem Reads.bind {part : OptionT (Procedure β) α} {a : Attempt β α}
    {f : α → OptionT (Procedure β) γ} {g : α → Attempt β γ} (hpart : Reads names s n part a)
    (hf : ∀ x, Reads names s n (f x) (g x)) : Reads names s n (part >>= f) (a >>= g) := by
  intro p h
  have hrun := hpart p h
  rw [OptionT.run_bind, Option.elimM]
  simp only [Bind.bind, EStateM.bind]
  generalize part.run p = x, a p = y at hrun ⊢
  cases hrun with
  | ok hq => exact hf _ _ hq
  | error hq => exact .error hq

theorem Reads.map {part : OptionT (Procedure β) α} {a : Attempt β α}
    (hpart : Reads names s n part a) (f : α → γ) : Reads names s n (f <$> part) (f <$> a) := by
  intro p h
  have hrun := hpart p h
  rw [OptionT.run_map]
  simp only [Functor.map, EStateM.map]
  generalize part.run p = x, a p = y at hrun ⊢
  cases hrun with
  | ok hq => exact .ok hq
  | error hq => exact .error hq

variable [NetworkBuilder β]

theorem settles_fail (h : Standing names s n p) {error : SyntaxError}
    (hadvance : error.plan.advance = false) :
    Settles names s n ((fail n (d + 5) error).run p)
      (Attempt.fail error p : EStateM.Result Unit (Parser β) α) := by
  rw [fail, run_lift_bind (syntaxError_eq h hadvance d)]
  exact .error (standing_syntaxError h hadvance)

theorem reads_mark (lexeme : Lexeme) {error : SyntaxError} (hadvance : error.plan.advance = false) :
    Reads names s n (mark n (d + 5) lexeme error) (Attempt.mark lexeme error : Attempt β Unit) := by
  intro p h
  rw [mark, run_lift_bind (sees_eq h lexeme), Attempt.mark]
  split
  · next hsees =>
    obtain ⟨t, ht⟩ := exists_token_of_sees hsees
    rw [run_lift (nextSymbol_eq h ht (d + 3))]
    exact .ok (standing_advance h ht)
  · exact settles_fail h hadvance

theorem reads_word {error : SyntaxError} (hadvance : error.plan.advance = false) :
    Reads names s n (word n (d + 5) error) (Attempt.word error : Attempt β Word) := by
  intro p h
  obtain ⟨⟨lexeme, pos⟩, ht⟩ | ⟨pos, heof⟩ := h.current_cases
  · rw [word, run_lift_bind (look_of_token ht), Attempt.word, ht]
    cases lexeme with
    | name text =>
        simp only []
        rw [run_lift_bind (nextSymbol_eq h ht (d + 3))]
        exact .ok (standing_advance h ht)
    | comma | semicolon | equals | dash | dot | keyword | number => exact settles_fail h hadvance
  · rw [word, run_lift_bind (look_of_eof heof), Attempt.word, heof]
    exact settles_fail h hadvance

theorem reads_numeral {error : SyntaxError} (hadvance : error.plan.advance = false) :
    Reads names s n (numeral n (d + 5) error) (Attempt.numeral error : Attempt β Numeral) := by
  intro p h
  obtain ⟨⟨lexeme, pos⟩, ht⟩ | ⟨pos, heof⟩ := h.current_cases
  · rw [numeral, run_lift_bind (look_of_token ht), Attempt.numeral, ht]
    cases lexeme with
    | number value =>
        simp only []
        rw [run_lift_bind (nextSymbol_eq h ht (d + 3))]
        exact .ok (standing_advance h ht)
    | comma | semicolon | equals | dash | dot | keyword | name => exact settles_fail h hadvance
  · rw [numeral, run_lift_bind (look_of_eof heof), Attempt.numeral, heof]
    exact settles_fail h hadvance

theorem Reads.after? {part : OptionT (Procedure β) α} {a : Attempt β α}
    (hpart : Reads names s n part a) (lexeme : Lexeme) :
    Reads names s n (after? n (d + 5) lexeme part) (Attempt.after? lexeme a) := by
  intro p h
  rw [Procedure.after?, run_lift_bind (sees_eq h lexeme), Attempt.after?]
  split
  · next hsees =>
    obtain ⟨t, ht⟩ := exists_token_of_sees hsees
    rw [run_lift_bind (nextSymbol_eq h ht (d + 3))]
    exact hpart.map some _ (standing_advance h ht)
  · exact .ok h

/-- **A declaration is read within limits.** -/
theorem reads_declared (b : Block) (first : Word) :
    Reads names s n (declared n (d + 5) b first) (b.attempt first : Attempt β Declaration) := by
  cases b with
  | devices =>
      exact (((reads_numeral rfl).after? _).bind fun _ => (reads_mark _ rfl).bind fun _ =>
        (reads_word rfl).bind fun _ => (reads_mark _ rfl).bind fun _ => reads_pure _).map _
  | connections =>
      exact (((reads_word rfl).after? _).bind fun _ => (reads_mark _ rfl).bind fun _ =>
        (reads_word rfl).bind fun _ => (reads_mark _ rfl).bind fun _ =>
          (reads_word rfl).bind fun _ => (reads_mark _ rfl).bind fun _ => reads_pure _).map _
  | monitor =>
      exact (((reads_word rfl).after? _).bind fun _ => (reads_mark _ rfl).bind fun _ =>
        reads_pure _).map _

theorem declaration_eq (h : Standing names s n p) (ht : p.current = .token t) (b : Block)
    (first : Word) :
    declaration n (d + 5) b first p = .ok () (p.declaration b first) ∧
      Standing names s n (p.declaration b first) := by
  have hrun := reads_declared (d := d) b first p.advance (standing_advance h ht)
  rw [declaration, bind_of_ok (nextSymbol_eq h ht (d + 3)), Parser.declaration]
  generalize hpart : (declared n (d + 5) b first).run p.advance = x,
    b.attempt first p.advance = y at hrun
  cases hrun with
  | ok hq => exact ⟨bind_of_ok hpart, standing_act hq _⟩
  | error hq => exact ⟨bind_of_ok hpart, hq⟩

end Declarations

/-! ## Blocks -/

section Blocks

variable {β : Type} [NetworkBuilder β] {names : NameTable} {s : TokenStream} {n d : Nat}
  {p q : Parser β} {t : Token}

/-- Where the declarations of a block stop, the block goes on as it would from their start. -/
theorem declarations_eq (h : Standing names s n p) (b : Block) :
    ∃ q, declarations n (d + 5) b p = .ok () q ∧ Standing names s n q ∧ q.left ≤ p.left ∧
      p.body b = q.body b ∧ ∀ text pos, q.current ≠ .token ⟨.name text, pos⟩ := by
  let R : Parser β → Parser β → Prop := fun p q =>
    Standing names s n q ∧ q.left ≤ p.left ∧ p.body b = q.body b ∧
      ∀ text pos, q.current ≠ .token ⟨.name text, pos⟩
  refine loop_of_turns (R := R) (fun p h => ?_) h
  obtain ⟨⟨lexeme, pos⟩, ht⟩ | ⟨pos, heof⟩ := h.current_cases
  · have hlook := look_of_token ht
    cases lexeme with
    | name text =>
        obtain ⟨hrun, hq⟩ := declaration_eq (d := d) h ht b ⟨text, pos⟩
        have hless : (p.declaration b ⟨text, pos⟩).left < p.left :=
          (p.left_declaration_le b _).trans_lt (Parser.left_advance_lt (by simp [ht]))
        have hbody : p.body b = (p.declaration b ⟨text, pos⟩).body b := by
          rw [Parser.body_eq, ht]
        refine .again ((bind_of_ok hlook).trans (bind_of_ok hrun)) hq hless ?_
        rintro r ⟨hr, hle, hmore, hstop⟩
        exact ⟨hr, hle.trans hless.le, hbody.trans hmore, hstop⟩
    | comma | semicolon | equals | dash | dot | keyword | number =>
        exact .stop (bind_of_ok hlook) ⟨h, Nat.le_refl _, rfl, by simp [ht]⟩
  · exact .stop (bind_of_ok (look_of_eof heof)) ⟨h, Nat.le_refl _, rfl, by simp [heof]⟩

/-- **A block is read within limits.** -/
theorem body_eq (h : Standing names s n p) (b : Block) :
    body n (d + 5) b p = .ok () (p.body b) ∧ Standing names s n (p.body b) := by
  let R : Parser β → Parser β → Prop := fun p q => q = p.body b ∧ Standing names s n q
  suffices hloop : ∃ q, body n (d + 5) b p = .ok () q ∧ R p q by
    obtain ⟨q, hrun, rfl, hq⟩ := hloop
    exact ⟨hrun, hq⟩
  refine loop_of_turns (fun p h => ?_) h
  obtain ⟨q, hdeclarations, hq, hle, hbody, hname⟩ := declarations_eq (d := d) h b
  have hq' := q.body_eq b
  -- what stops the declarations decides how the block goes on
  obtain ⟨⟨lexeme, pos⟩, ht⟩ | ⟨pos, heof⟩ := hq.current_cases
  · have hlook := look_of_token ht
    rw [ht] at hq'
    cases lexeme with
    | name text => exact absurd ht (hname text pos)
    | keyword k =>
        cases k with
        | endBlock =>
            have hclosed := standing_act hq (.closed b ⟨.keyword .endBlock, pos⟩)
            refine .stop ?_ ⟨(hbody.trans hq').symm, standing_advance hclosed ht⟩
            exact (bind_of_ok hdeclarations).trans ((bind_of_ok hlook).trans
              (bind_of_ok (nextSymbol_eq hclosed ht (d + 3))))
        | devices | connections | monitor | mainEnd =>
            refine .stop ?_ ⟨(hbody.trans hq').symm, standing_syntaxError hq rfl⟩
            exact (bind_of_ok hdeclarations).trans ((bind_of_ok hlook).trans
              (bind_of_ok (syntaxError_eq hq rfl d)))
    | semicolon =>
        refine .again ?_ (standing_extraSemicolons hq)
          ((Parser.left_extraSemicolons_lt ht rfl).trans_le hle)
          fun r hr => ⟨hr.1.trans (hbody.trans hq').symm, hr.2⟩
        exact (bind_of_ok hdeclarations).trans ((bind_of_ok hlook).trans
          (bind_of_ok (extraSemicolons_eq hq (d + 2))))
    | comma | equals | dash | dot | number =>
        have hless : (q.syntaxError b.strayError).left < q.left :=
          Parser.left_strayError_lt b (by simp [Parser.sees, ht]) (by simp [ht])
        refine .again ?_ (standing_syntaxError hq b.strayError_inDeclaration.1)
          (hless.trans_le hle) fun r hr => ⟨hr.1.trans (hbody.trans hq').symm, hr.2⟩
        exact (bind_of_ok hdeclarations).trans ((bind_of_ok hlook).trans
          (bind_of_ok (syntaxError_eq hq b.strayError_inDeclaration.1 d)))
  · rw [heof] at hq'
    refine .stop ?_ ⟨(hbody.trans hq').symm, standing_syntaxError hq rfl⟩
    exact (bind_of_ok hdeclarations).trans ((bind_of_ok (look_of_eof heof)).trans
      (bind_of_ok (syntaxError_eq hq rfl d)))

theorem seek_eq (h : Standing names s n p) (lexeme : Lexeme) {error : SyntaxError}
    (hadvance : error.plan.advance = false) :
    let q := if p.sees lexeme then p else p.syntaxError error
    seek n (d + 5) lexeme error p = .ok () q ∧ Standing names s n q := by
  have hsees := sees_eq h lexeme
  by_cases hnext : p.sees lexeme
  · rw [hnext] at hsees
    simp only [hnext, if_true]
    exact ⟨bind_of_ok hsees, h⟩
  · rw [Bool.eq_false_iff.mpr hnext] at hsees
    simp only [hnext]
    exact ⟨(bind_of_ok hsees).trans (syntaxError_eq h hadvance d), standing_syntaxError h hadvance⟩

theorem blocks_eq (bs : List Block) (h : Standing names s n p) :
    blocks n (d + 5) bs p = .ok () (Parser.blocks bs p) ∧
      Standing names s n (Parser.blocks bs p) := by
  induction bs generalizing p with
  | nil =>
      rw [Parser.blocks]
      exact seek_eq h _ rfl
  | cons b bs ih =>
      have hmissing : b.missingError.plan.advance = false := by cases b <;> rfl
      obtain ⟨hseek, hsought⟩ : seek n (d + 5) (.keyword b.keyword) b.missingError p =
          .ok () (p.seek b) ∧ Standing names s n (p.seek b) := seek_eq h _ hmissing
      rw [blocks, bind_of_ok hseek, Parser.blocks]
      generalize p.seek b = q at hsought
      rw [bind_of_ok (sees_eq hsought _)]
      by_cases hnext : q.sees (.keyword b.keyword)
      · obtain ⟨t, ht⟩ := exists_token_of_sees hnext
        have hopened : Standing names s n (q.advance.enter b) :=
          (standing_advance hsought ht).congr rfl rfl rfl
        obtain ⟨hbody, hclosed⟩ := body_eq (d := d) hopened b
        simp only [hnext, if_true]
        rw [bind_of_ok (nextSymbol_eq hsought ht (d + 3)), modify_bind, bind_of_ok hbody]
        exact ih hclosed
      · simp only [hnext]
        exact ih hsought

/-- **A text is read within limits.** -/
theorem file_eq (names : NameTable) (builder : β) (text : String) (rounds depth : Nat) :
    file (text.toList.length + 1 + rounds) (depth + 5) (Parser.start names builder text) =
      .ok () (Parser.run names builder text) := by
  have hstart := Parser.before_start names builder text
  have hlength : (Parser.start names builder text).advance.left ≤ text.toList.length :=
    (Parser.start names builder text).left_advance_le_length
  have hfirst : Standing names (.ofText text) (text.toList.length + 1 + rounds)
      (Parser.start names builder text).advance :=
    ⟨⟨_, hstart.follows_advance.stands⟩, by omega⟩
  have hnext : nextSymbol (text.toList.length + 1 + rounds) (depth + 5)
      (Parser.start names builder text) = .ok () (Parser.start names builder text).advance :=
    nextSymbol_apply _ _ _
  rw [file, bind_of_ok hnext]
  exact (blocks_eq Block.all hfirst).1

end Blocks

/-- Of the first symbols of a stream only the last may be the end. -/
theorem eof_not_mem_dropLast {s : TokenStream} {taken : List Symbol} (h : taken <+: s.symbols)
    (pos : Position) : .eof pos ∉ taken.dropLast := by
  let others := s.tokens.map .token ++ (s.ending.openComment.map Symbol.openComment).toList
  have hsymbols : s.symbols = others ++ [.eof s.ending.stop] :=
    (List.append_assoc ..).symm
  have hothers : .eof pos ∉ others := by simp [others]
  rw [hsymbols, List.prefix_concat_iff] at h
  rcases h with rfl | h
  · rwa [List.dropLast_concat]
  · exact fun hmem => hothers (h.mem (List.dropLast_subset _ hmem))

/--
**The parser ends, and never reads past the end of the text.** Whatever the text and the builder,
no loop goes round more often than there are characters in the text and once more, five nested calls
are enough, no decision is made at a comment that is left open, and no symbol is taken behind the
end of the text; the parser that is held to these limits leaves what the other leaves. What it has
taken are the first symbols of the text, each once, and only the last of them may be the end. To
take a symbol needs two nested calls and no round of any loop, wherever the parser is.
-/
theorem file_within_limits {β : Type} [NetworkBuilder β] (names : NameTable) (builder : β)
    (text : String) :
    let s := TokenStream.ofText text
    let p := Parser.run names builder text
    p.parsed = parse names builder text ∧
      (∀ rounds depth, file (text.toList.length + 1 + rounds) (depth + 5)
        (Parser.start names builder text) = .ok () p) ∧
      (p.taken <+: s.symbols ∧ p.taken.getLast? = some p.current) ∧
      (p.taken.map Symbol.pos).Pairwise Position.Before ∧
      (∀ pos, .eof pos ∉ p.taken.dropLast) ∧
      ∀ (q : Parser β) (rounds depth : Nat), nextSymbol rounds (depth + 2) q =
        if q.exhausted then .error .pastEnd q else .ok () q.advance := by
  intro s p
  have hrun := (Parser.follows_run names builder text).stands
  obtain ⟨htaken, hlast⟩ := hrun.taken_eq_concat
  exact ⟨Parser.parsed_run names builder text, file_eq names builder text, ⟨htaken, hlast⟩,
    (TokenStream.ordered_ofText text).sublist (htaken.map Symbol.pos).sublist,
    eof_not_mem_dropLast htaken, fun q rounds depth => nextSymbol_apply rounds depth q⟩

end Procedure

end LogicNet
