import LogicNet.Proofs.Stopping

/-!
# The way between blocks

A fault between blocks has a plan of its own: report it, pass over what stands there if the plan
says so, and find the way to the next block. On that way the keyword of a block that was entered
before is itself a fault between blocks. So a plan that is followed to the letter calls itself:
`Parser.followPlan` reports the keyword, passes over it and starts to find the way again, and what
comes of that is what comes of the whole (`Parser.recoverByPlan`).

The parser does not call itself. It has one loop, in which it reports such a keyword and goes on.
Loop and plan agree round by round (`Parser.recoverByPlan_eq_recoverOutOfBlock`). The loop stops
where a symbol `Halts` and otherwise passes over it (`Parser.recoverOutOfBlock_of_not_halts`), so
what it leaves can be told from the symbols ahead alone (`Parser.recoverOutOfBlock_exact`).
-/

namespace LogicNet

/-! ## Where the way ends, and what is found on it -/

namespace Symbol

/-- Whether the way between blocks ends at a symbol: a new block starts there, or the file ends. -/
def Halts (entered : List Block) (symbol : Symbol) : Prop :=
  symbol.EndsFile ∨ ∃ t, symbol = .token t ∧ t.StartsNew entered

/-- The fault at the keyword of a block that starts again. -/
def duplicate? : Symbol → Option Diagnostic
  | .token ⟨.keyword k, pos⟩ =>
    (Block.ofKeyword? k).map fun b => ⟨.syntactic b.duplicateError, .token ⟨.keyword k, pos⟩⟩
  | .token _ | .openComment _ | .eof _ => none

/-- The fault at a comment that is left open. -/
def leftOpen? : Symbol → Option Diagnostic
  | .openComment pos => some ⟨.syntactic .unterminatedComment, .openComment pos⟩
  | .token _ | .eof _ => none

variable {entered : List Block} {t : Token}

theorem halts_eof (pos : Text.Position) : (eof pos).Halts entered := .inl (.inl ⟨pos, rfl⟩)

theorem not_halts_openComment (pos : Text.Position) : ¬ (openComment pos).Halts entered := by
  simp [Halts, EndsFile]

theorem halts_token_iff :
    (token t).Halts entered ↔ t.lexeme = .keyword .mainEnd ∨ t.StartsNew entered := by
  rw [Halts, endsFile_token]
  simp

end Symbol

namespace Parser

variable {β : Type} {p : Parser β}

/-- The symbol that the parser looks at, and behind it those that its scanner is still to return. -/
def ahead (p : Parser β) : Nat → Symbol
  | 0 => p.current
  | n + 1 => p.scanner.symbol n

/-- Record errors after which nothing is built. -/
def record (p : Parser β) (ds : List Diagnostic) : Parser β :=
  { p with
    progress := { p.progress with
      blocked := p.progress.blocked || !ds.isEmpty
      errors := p.progress.errors + ds.length }
    events := p.events ++ ds.map .reported }

@[simp] theorem record_nil (p : Parser β) : p.record [] = p := by
  simp [record]

theorem record_record (p : Parser β) (ds ds' : List Diagnostic) :
    (p.record ds).record ds' = p.record (ds ++ ds') := by
  cases ds <;> simp [record, Nat.add_assoc, Nat.add_left_comm, Nat.add_comm]

/-- Record that a block starts again, if the parser looks at its keyword. -/
def recordDuplicate (p : Parser β) : Parser β := p.record p.current.duplicate?.toList

theorem recordDuplicate_of_none (h : p.current.duplicate? = none) : p.recordDuplicate = p := by
  simp [recordDuplicate, h]

variable [NetworkBuilder β]

theorem report_eq_record {error : SyntaxError} (h : error.blocksBuilding = true) (p : Parser β) :
    p.report error = p.record [⟨.syntactic error, p.current⟩] := by
  simp [report, act, record, Progress.step, Progress.note, ErrorKind.blocksBuilding, h]

theorem recordDuplicate_of_keyword {k : Keyword} {b : Block} {pos : Text.Position}
    (h : p.current = .token ⟨.keyword k, pos⟩) (hk : Block.ofKeyword? k = some b) :
    p.recordDuplicate = p.report b.duplicateError := by
  rw [report_eq_record (by cases b <;> rfl), recordDuplicate, h]
  simp [Symbol.duplicate?, hk]

/-! ## One round of the loop -/

theorem recoverOutOfBlock_of_halts (h : p.current.Halts p.entered) : p.recoverOutOfBlock = p := by
  rw [recoverOutOfBlock_eq]
  cases hcurrent : p.current with
  | eof pos => rfl
  | openComment pos => exact absurd (hcurrent ▸ h) (Symbol.not_halts_openComment pos)
  | token t =>
      obtain ⟨lexeme, pos⟩ := t
      rw [hcurrent, Symbol.halts_token_iff] at h
      rcases h with rfl | ⟨b, rfl, hb⟩
      · rfl
      · cases b <;> simp [Block.keyword, Block.ofKeyword?, hb]

/-- What does not halt the parser is passed over, and reported if a block starts again there. -/
theorem recoverOutOfBlock_of_not_halts (h : ¬ p.current.Halts p.entered) :
    p.recoverOutOfBlock = p.recordDuplicate.advance.recoverOutOfBlock := by
  rw [recoverOutOfBlock_eq]
  cases hcurrent : p.current with
  | eof pos => exact absurd (hcurrent ▸ Symbol.halts_eof pos) h
  | openComment pos => rw [recordDuplicate_of_none (by rw [hcurrent]; rfl)]
  | token t =>
      obtain ⟨lexeme, pos⟩ := t
      rw [hcurrent, Symbol.halts_token_iff, not_or] at h
      cases lexeme with
      | comma | semicolon | equals | dash | dot | number | name =>
          rw [recordDuplicate_of_none (by rw [hcurrent]; rfl)]
      | keyword k =>
          have hmain : k ≠ .mainEnd := fun heq => h.1 (heq ▸ rfl)
          cases hof : Block.ofKeyword? k with
          | none =>
              rw [recordDuplicate_of_none (by simp [hcurrent, Symbol.duplicate?, hof])]
              simp [hof]
          | some b =>
              have hb : b ∈ p.entered := by
                by_contra hb
                exact h.2 ⟨b, congrArg Lexeme.keyword (Block.ofKeyword?_eq_some_iff.mp hof), hb⟩
              rw [recordDuplicate_of_keyword hcurrent hof]
              simp [hof, hb]

/-! ## The plan, followed to the letter -/

/-- How much is still to be done to follow a plan: nothing, once its symbol is sure to be passed. -/
def planned (p : Parser β) (error : SyntaxError) : Nat :=
  match p.current, error.plan.advance with
  | .token _, true => 0
  | _, _ => 2

mutual

/-- Go on where the way ends. The keyword of a block that was entered is a fault of its own. -/
def recoverByPlan (p : Parser β) : Parser β :=
  match _h : p.current with
  | .token t =>
    match t.lexeme with
    | .keyword .mainEnd => p
    | .keyword k =>
      match Block.ofKeyword? k with
      | some b => if b ∈ p.entered then followPlan p b.duplicateError else p
      | none => recoverByPlan p.advance
    | _ => recoverByPlan p.advance
  | .openComment _ => recoverByPlan p.advance
  | .eof _ => p
termination_by (p.left, 1)
decreasing_by
  · have hplanned : ∀ b : Block, p.planned b.duplicateError = 0 := by
      intro b
      cases b <;> simp [planned, _h, Block.duplicateError, SyntaxError.plan]
    rw [hplanned]
    exact .right _ Nat.zero_lt_one
  all_goals exact .left _ _ (left_advance_lt (by simp [_h]))

/-- Report an error, pass over its symbol if the plan says so, and find the way as it says. -/
def followPlan (p : Parser β) (error : SyntaxError) : Parser β :=
  let reported := p.report error
  let passed := if error.plan.advance then reported.advance else reported
  match error.plan.recovery with
  | .stay => passed
  | .inBlock => passed.recoverInBlock
  | .outOfBlock => recoverByPlan passed
termination_by (p.left, p.planned error)
decreasing_by
  rw [planned]
  split
  · next hadvance =>
    rw [hadvance]
    cases hcurrent : p.current with
    | token t => exact .left _ _ (left_advance_lt (p := p.report error) (by simp [hcurrent]))
    | openComment | eof => exact .right' _ (p.report error).left_advance_le Nat.one_lt_two
  · next hadvance =>
    rw [Bool.eq_false_iff.mpr hadvance]
    cases p.current <;> exact .right' _ (Nat.le_refl _) Nat.one_lt_two

end

/-- One round of going on as planned. -/
theorem recoverByPlan_eq (p : Parser β) :
    p.recoverByPlan =
      match p.current with
      | .token t =>
        match t.lexeme with
        | .keyword .mainEnd => p
        | .keyword k =>
          match Block.ofKeyword? k with
          | some b => if b ∈ p.entered then p.followPlan b.duplicateError else p
          | none => p.advance.recoverByPlan
        | _ => p.advance.recoverByPlan
      | .openComment _ => p.advance.recoverByPlan
      | .eof _ => p := by
  rw [recoverByPlan]
  split <;> next h => simp only [h]

theorem followPlan_duplicateError (p : Parser β) (b : Block) :
    p.followPlan b.duplicateError = (p.report b.duplicateError).advance.recoverByPlan := by
  rw [followPlan]
  cases b <;> rfl

/-- **The loop does what the plan says.** -/
theorem recoverByPlan_eq_recoverOutOfBlock (p : Parser β) :
    p.recoverByPlan = p.recoverOutOfBlock := by
  fun_induction recoverOutOfBlock p with
  | case1 p t h ht => rw [recoverByPlan_eq, h]; simp only [ht]
  | case2 p t h k hk ht b hb hmem ih =>
      rw [recoverByPlan_eq, h, ← ih, ← followPlan_duplicateError]
      simp [ht, hb, hmem]
  | case3 p t h k hk ht b hb hmem =>
      rw [recoverByPlan_eq, h]
      simp [ht, hb, hmem]
  | case4 p t h k hk ht hb ih =>
      rw [recoverByPlan_eq, h, ← ih]
      simp [ht, hb]
  | case5 p t h hmain hother ih =>
      rw [recoverByPlan_eq, h, ← ih]
      simp
  | case6 p pos h ih => rw [recoverByPlan_eq, h, ← ih]
  | case7 p pos h => rw [recoverByPlan_eq, h]

theorem followPlan_eq_syntaxError (p : Parser β) (error : SyntaxError) :
    p.followPlan error = p.syntaxError error := by
  rw [followPlan, syntaxError]
  cases error.plan.recovery with
  | stay | inBlock => rfl
  | outOfBlock => exact recoverByPlan_eq_recoverOutOfBlock _

/-! ## What the loop leaves -/

end Parser

namespace Scanner

/-- Behind a comment that is left open there is nothing. -/
theorem rest_scan_openComment {opened : Option Text.Position} {p q : Text.Position}
    {cs : List Char} (h : (scan opened p cs).1 = .openComment q) :
    (scan opened p cs).2.2 = [] := by
  induction cs generalizing opened p with
  | nil => cases opened <;> rfl
  | cons c cs ih =>
      cases opened with
      | some opening =>
          rw [scan] at h ⊢
          split at h
          · next hc => rw [if_pos hc]; exact ih h
          · next hc => rw [if_neg hc]; exact ih h
      | none =>
          rw [scan] at h ⊢
          split at h
          · next hc => rw [if_pos hc]; exact ih h
          · next hblank =>
            rw [if_neg hblank]
            split at h
            · next hc => rw [if_pos hc]; exact ih h
            · next hc =>
              rw [if_neg hc]
              split at h
              · cases h
              · split at h
                · cases h
                · next halpha =>
                  split at h
                  · cases h
                  · next hdigit =>
                    simp only [halpha, hdigit]
                    exact ih h

end Scanner

namespace Parser

variable {β : Type} {p : Parser β}

/-- What is found on the way over `n` symbols. -/
def found (p : Parser β) (n : Nat) : List Diagnostic :=
  let passed := (List.range n).map p.ahead
  passed.filterMap Symbol.duplicate? ++ passed.tail.filterMap Symbol.leftOpen?

/-- The parser when it has passed over `n` symbols and recorded what it found there. -/
def past (p : Parser β) (n : Nat) : Parser β :=
  { p.record (p.found n) with
    scanner := p.scanner.after n
    current := p.ahead n
    taken := p.taken ++ (List.range n).map p.scanner.symbol }

theorem past_zero (p : Parser β) : p.past 0 = p := by
  simp [past, found, ahead, Scanner.after]

variable [NetworkBuilder β]

theorem advance_eq_take (h : ∀ pos, p.ahead 1 ≠ .openComment pos) : p.advance = p.take := by
  rw [advance]
  split
  · next pos hcurrent => exact absurd hcurrent (h pos)
  · rfl
  · rfl

/-- Up to a symbol that does not halt the parser there is one symbol more to pass over. -/
theorem past_advance (h : ∀ pos, p.ahead 1 ≠ .openComment pos) (n : Nat) :
    p.recordDuplicate.advance.past n = p.past (n + 1) := by
  have hadvance : p.recordDuplicate.advance = p.recordDuplicate.take := advance_eq_take h
  have hahead : ∀ i, p.recordDuplicate.take.ahead i = p.ahead (i + 1) := by
    intro i
    cases i <;> rfl
  have hpassed : (List.range (n + 1)).map p.ahead =
      p.current :: (List.range n).map p.recordDuplicate.take.ahead := by
    rw [List.range_succ_eq_map, List.map_cons, List.map_map, funext hahead]
    rfl
  have hfirst : ((List.range n).map p.recordDuplicate.take.ahead).filterMap Symbol.leftOpen? =
      ((List.range n).map p.recordDuplicate.take.ahead).tail.filterMap Symbol.leftOpen? := by
    cases n with
    | zero => rfl
    | succ n =>
        have hnone : (p.ahead 1).leftOpen? = none := by
          cases hnext : p.ahead 1 with
          | openComment pos => exact absurd hnext (h pos)
          | token t | eof pos => rfl
        rw [List.range_succ_eq_map, List.map_cons, hahead, List.filterMap_cons_none hnone]
        rfl
  have hfound :
      p.current.duplicate?.toList ++ p.recordDuplicate.take.found n = p.found (n + 1) := by
    rw [found, found, hpassed, ← hfirst, List.tail_cons, ← List.append_assoc]
    cases hduplicate : p.current.duplicate? <;> simp [hduplicate]
  have htaken : (List.range (n + 1)).map p.scanner.symbol =
      p.scanner.next.1 :: (List.range n).map p.scanner.next.2.symbol := by
    rw [List.range_succ_eq_map, List.map_cons, List.map_map]
    rfl
  rw [hadvance, past, past, htaken, ← hfound, ← record_record, hahead]
  simp [record, recordDuplicate, take, Scanner.after]

/-- A comment that is left open is recorded, and the end of the text is next. -/
theorem advance_of_openComment {pos : Text.Position} (h : p.ahead 1 = .openComment pos) :
    p.recordDuplicate.advance = p.past 2 ∧ ∃ stop, p.ahead 2 = .eof stop := by
  have hnext : p.scanner.next.1 = .openComment pos := h
  have hrest : p.scanner.next.2.rest = [] := Scanner.rest_scan_openComment hnext
  have heof : p.ahead 2 = .eof p.scanner.next.2.pos := by
    simp only [ahead, Scanner.symbol, Scanner.after, Scanner.next] at hrest ⊢
    simp [hrest, Scanner.scan]
  refine ⟨?_, _, heof⟩
  have hcurrent : p.recordDuplicate.take.current = .openComment pos := hnext
  have hfound : p.found 2 =
      p.current.duplicate?.toList ++ [⟨.syntactic .unterminatedComment, .openComment pos⟩] := by
    have hpassed : (List.range 2).map p.ahead = [p.current, .openComment pos] := by
      rw [← h]
      rfl
    have hnone : (Symbol.openComment pos).duplicate? = none := rfl
    have hsome : (Symbol.openComment pos).leftOpen? =
      some ⟨.syntactic .unterminatedComment, .openComment pos⟩ := rfl
    rw [found, hpassed]
    cases hduplicate : p.current.duplicate? <;> simp [hduplicate, hnone, hsome]
  rw [advance, hcurrent]
  simp only []
  rw [report_eq_record rfl, hcurrent, past, hfound, ← record_record]
  have hrange : List.range 2 = [0, 1] := rfl
  simp [record, recordDuplicate, take, Scanner.after, ahead, Scanner.symbol, hrange]

/-- The way ends at the first symbol that halts the parser. -/
theorem exists_past (p : Parser β) :
    ∃ n, (∀ i < n, ¬ (p.ahead i).Halts p.entered) ∧ (p.ahead n).Halts p.entered ∧
      p.recoverOutOfBlock = p.past n := by
  by_cases h : p.current.Halts p.entered
  · refine ⟨0, fun i hi => absurd hi (Nat.not_lt_zero i), h, ?_⟩
    rw [past_zero, recoverOutOfBlock_of_halts h]
  · rw [recoverOutOfBlock_of_not_halts h]
    by_cases hopen : ∃ pos, p.ahead 1 = .openComment pos
    · obtain ⟨pos, hopen⟩ := hopen
      obtain ⟨hadvance, stop, heof⟩ := advance_of_openComment hopen
      have hhalts : (p.ahead 2).Halts p.entered := heof ▸ Symbol.halts_eof stop
      refine ⟨2, ?_, hhalts, ?_⟩
      · intro i hi
        match i, hi with
        | 0, _ => exact h
        | 1, _ => exact hopen ▸ Symbol.not_halts_openComment pos
      · rw [hadvance, recoverOutOfBlock_of_halts hhalts]
    · have hlt : p.recordDuplicate.advance.left < p.left :=
        left_advance_lt (p := p.recordDuplicate) fun pos hpos => h (hpos ▸ Symbol.halts_eof pos)
      rw [not_exists] at hopen
      obtain ⟨n, hpassed, hhalts, hpast⟩ := exists_past p.recordDuplicate.advance
      have hadvance : p.recordDuplicate.advance = p.recordDuplicate.take := advance_eq_take hopen
      have hahead : ∀ i, p.recordDuplicate.advance.ahead i = p.ahead (i + 1) := by
        intro i
        rw [hadvance]
        cases i <;> rfl
      have hentered : p.recordDuplicate.advance.entered = p.entered := by rw [hadvance]; rfl
      rw [hentered] at hpassed hhalts
      refine ⟨n + 1, ?_, hahead n ▸ hhalts, hpast.trans (past_advance hopen n)⟩
      intro i hi
      cases i with
      | zero => exact h
      | succ i => exact hahead i ▸ hpassed i (Nat.lt_of_succ_lt_succ hi)
termination_by p.left

/--
**The way between blocks is exact, and it is the planned one.** From wherever it starts, the parser
stops at the first symbol at which the text ends, or the file, or a block starts that it has not
entered. It takes the symbols up to that one; of those that it passes over it reports each keyword
of a block, which was entered then, and each comment that is left open and is met on the way, and
nothing else; and the builder is left alone. All that is what comes of following the plans of the
errors to the letter.
-/
theorem recoverOutOfBlock_exact (p : Parser β) :
    p.recoverOutOfBlock = p.recoverByPlan ∧ (∀ error, p.syntaxError error = p.followPlan error) ∧
      ∃ n,
        let passed := (List.range n).map p.ahead
        let found := passed.filterMap Symbol.duplicate? ++ passed.tail.filterMap Symbol.leftOpen?
        (∀ x ∈ passed, ¬ x.Halts p.entered) ∧ (p.ahead n).Halts p.entered ∧
          p.recoverOutOfBlock =
            { scanner := p.scanner.after n
              current := p.ahead n
              taken := p.taken ++ (List.range n).map p.scanner.symbol
              entered := p.entered
              progress := { p.progress with
                blocked := p.progress.blocked || !found.isEmpty
                errors := p.progress.errors + found.length }
              events := p.events ++ found.map .reported } := by
  refine ⟨p.recoverByPlan_eq_recoverOutOfBlock.symm,
    fun error => (p.followPlan_eq_syntaxError error).symm, ?_⟩
  obtain ⟨n, hpassed, hhalts, hpast⟩ := p.exists_past
  refine ⟨n, ?_, hhalts, hpast⟩
  intro x hx
  obtain ⟨i, hi, rfl⟩ := List.mem_map.mp hx
  exact hpassed i (List.mem_range.mp hi)

end Parser

end LogicNet
