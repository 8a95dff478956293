import LogicNet.Network.Scripted
import LogicNet.Proofs.Independence
import LogicNet.Proofs.Markers

/-!
# What a text can count up to

Lines, columns and errors are counted without bounds. A program that counts them in words of 32 bits
counts the same, unless a text is so long that a word overflows. This file says how long that is.

A line or a column is a number of characters that stand before a place, and one more. Errors are
counted against what is left to take. Each symbol that is taken pays for one error, and the errors
that no symbol pays for are one for each block and one for the end of the file. So the errors that
were reported and what is left grow by four in all (`Parser.errors_run_le`).
-/

namespace LogicNet

open Text (Position)

/-! ## Places -/

/-- A line and a column that a word of 32 bits can hold. -/
def Text.Position.Fits (p : Position) : Prop := p.line < UInt32.size ∧ p.column < UInt32.size

/-- Behind so many characters, no line and no column is larger than their number and one. -/
theorem Text.Position.fits_behind {before : List Char} (h : before.length + 1 < UInt32.size) :
    (behind before).Fits := by
  have hline : 1 + before.count '\n' ≤ before.length + 1 := by
    rw [Nat.add_comm]
    exact Nat.add_le_add_right List.count_le_length 1
  have hcolumn : 1 + (before.reverse.takeWhile (· != '\n')).length ≤ before.length + 1 := by
    rw [Nat.add_comm, ← before.length_reverse]
    exact Nat.add_le_add_right (List.takeWhile_sublist _).length_le 1
  exact ⟨hline.trans_lt h, hcolumn.trans_lt h⟩

namespace Scanner

/-- Scanning goes on right behind what it has passed, and counts lines and columns up to there. -/
theorem exists_passed (opened : Option Position) (p : Position) (cs : List Char) :
    ∃ passed, cs = passed ++ (scan opened p cs).2.2 ∧
      (scan opened p cs).2.1 = p.after passed := by
  induction cs generalizing opened p with
  | nil => cases opened <;> exact ⟨[], rfl, rfl⟩
  | cons c cs ih =>
      -- `c` is passed, and so is whatever is passed from there on
      have hmore : ∀ opened, ∃ passed, c :: cs = passed ++ (scan opened (p.next c) cs).2.2 ∧
          (scan opened (p.next c) cs).2.1 = p.after passed := by
        intro opened
        obtain ⟨passed, hcs, hpos⟩ := ih opened (p.next c)
        exact ⟨c :: passed, congrArg (c :: ·) hcs, hpos⟩
      have hrun : ∀ goesOn : Char → Bool, c :: cs =
          (c :: cs.takeWhile goesOn) ++ cs.dropWhile goesOn := by
        intro goesOn
        rw [List.cons_append, List.takeWhile_append_dropWhile]
      cases opened with
      | some opening =>
          rw [scan]
          split <;> exact hmore _
      | none =>
          rw [scan]
          split
          · exact hmore _
          · split
            · exact hmore _
            · split
              · exact ⟨[c], rfl, rfl⟩
              · split
                · exact ⟨_, hrun isNamePart, rfl⟩
                · split
                  · exact ⟨_, hrun Char.isDigit, rfl⟩
                  · exact hmore _

/-- **A scanner is where its rest starts**, however many symbols it has returned. -/
theorem exists_before (names : NameTable) (text : String) (n : Nat) :
    ∃ before, text.toList = before ++ ((start names text).after n).rest ∧
      ((start names text).after n).pos = .behind before := by
  suffices h : ∀ scanner : Scanner, (∃ before, text.toList = before ++ scanner.rest ∧
      scanner.pos = .behind before) → ∃ before, text.toList = before ++ (scanner.after n).rest ∧
        (scanner.after n).pos = .behind before from h _ ⟨[], rfl, rfl⟩
  induction n with
  | zero => exact fun _ h => h
  | succ n ih =>
      rintro scanner ⟨before, htext, hpos⟩
      obtain ⟨passed, hrest, hplace⟩ := exists_passed none scanner.pos scanner.rest
      refine ih scanner.next.2 ⟨before ++ passed, ?_, ?_⟩
      · rw [htext, List.append_assoc]
        exact congrArg (before ++ ·) hrest
      · rw [hpos, Position.after_behind, ← hpos] at hplace
        exact hplace

/-- No place that a scanner comes to or returns is too large for a short text. -/
theorem fits_of_length_lt (names : NameTable) {text : String}
    (h : text.toList.length + 1 < UInt32.size) (n : Nat) :
    ((start names text).after n).pos.Fits ∧ ((start names text).symbol n).pos.Fits := by
  constructor
  · obtain ⟨before, htext, hpos⟩ := exists_before names text n
    rw [hpos]
    refine Position.fits_behind ?_
    rw [htext, List.length_append] at h
    omega
  · rw [(reads_start names text).symbol_eq n]
    obtain ⟨before, ahead, htext, hstands, -⟩ :=
      TokenStream.stands_ofText (TokenStream.symbolAt_mem _ n)
    rw [hstands.pos_eq]
    refine Position.fits_behind ?_
    rw [htext, List.length_append] at h
    omega

end Scanner

/-! ## Errors -/

namespace Progress

variable {β : Type} [NetworkBuilder β]

/-- One thing that is found makes one error at most, and takes none back. -/
theorem errors_step (p : Progress β) (ids : String → NameId) (item : Item) :
    p.errors ≤ (p.step ids item).2.errors ∧ (p.step ids item).2.errors ≤ p.errors + 1 := by
  have hsame : p.errors ≤ p.errors ∧ p.errors ≤ p.errors + 1 := ⟨Nat.le_refl _, Nat.le_succ _⟩
  have hmore : p.errors ≤ p.errors + 1 ∧ p.errors + 1 ≤ p.errors + 1 :=
    ⟨Nat.le_succ _, Nat.le_refl _⟩
  cases item with
  | opened b => exact hsame
  | declared d =>
      rw [step]
      split
      · exact hsame
      · rcases p.declare_cases ids d with ⟨-, hd⟩ | ⟨-, ⟨b, -, hd⟩ | ⟨b, kind, symbol, -, -, hd⟩⟩
        · rw [hd]
          exact hsame
        · rw [hd]
          exact hsame
        · rw [hd]
          exact hmore
  | closed b last =>
      rw [step]
      split
      · rw [check]
        split
        · exact hsame
        · exact hmore
      · exact hsame
  | fault error symbol => exact hmore

/-- Errors are never taken back. -/
theorem errors_le_steps (p : Progress β) (ids : String → NameId) (items : List Item) :
    p.errors ≤ (p.steps ids items).2.errors := by
  induction items generalizing p with
  | nil => exact Nat.le_refl _
  | cons item items ih => exact (p.errors_step ids item).1.trans (ih _)

end Progress

namespace Parser

variable {β : Type} [NetworkBuilder β] {p : Parser β}

/-- The errors that were reported, and one more for each symbol that is left. -/
def charge (p : Parser β) : Nat := p.progress.errors + p.left

theorem charge_act_le (p : Parser β) (item : Item) : (p.act item).charge ≤ p.charge + 1 := by
  have hstep := (p.progress.errors_step p.scanner.names.idFor item).2
  have herrors : (p.act item).progress.errors ≤ p.progress.errors + 1 := hstep
  rw [charge, charge, left_act]
  omega

theorem charge_report_le (p : Parser β) (error : SyntaxError) :
    (p.report error).charge ≤ p.charge + 1 := p.charge_act_le _

/-- A comment that is left open is reported, and is itself one of the symbols that were left. -/
theorem charge_advance_le_length (p : Parser β) :
    p.advance.charge ≤ p.progress.errors + p.scanner.rest.length := by
  have htake := p.left_take_le
  rw [advance]
  split
  · next q hopen =>
    have hreport : (p.take.report .unterminatedComment).progress.errors ≤ p.progress.errors + 1 :=
      (p.progress.errors_step p.take.scanner.names.idFor _).2
    have hrest : (p.take.report .unterminatedComment).take.left ≤ p.take.scanner.rest.length :=
      (p.take.report .unterminatedComment).left_take_le
    have hleft : p.take.left = p.take.scanner.rest.length + 1 := by rw [left, hopen]
    have herrors : (p.take.report .unterminatedComment).take.progress.errors =
        (p.take.report .unterminatedComment).progress.errors := rfl
    rw [charge, herrors]
    omega
  · exact Nat.add_le_add_left htake _
  · exact Nat.add_le_add_left htake _

theorem charge_advance_le (p : Parser β) : p.advance.charge ≤ p.charge :=
  p.charge_advance_le_length.trans (Nat.add_le_add_left (Nat.le_add_right _ _) _)

/-- What is not the end of the text is paid for. -/
theorem charge_advance_lt (h : ∀ q, p.current ≠ .eof q) : p.advance.charge < p.charge := by
  have hle := p.charge_advance_le_length
  have hleft : p.left = p.scanner.rest.length + 1 := by
    rw [left]
    split
    · next q heq => exact absurd heq (h q)
    · rfl
    · rfl
  have hcharge : p.charge = p.progress.errors + p.scanner.rest.length + 1 := by
    rw [charge, hleft, Nat.add_assoc]
  omega

/-- An error at a symbol that is passed over costs nothing. -/
theorem charge_report_advance_le (error : SyntaxError) (h : ∀ q, p.current ≠ .eof q) :
    (p.report error).advance.charge ≤ p.charge := by
  have hlt : (p.report error).advance.charge < (p.report error).charge := charge_advance_lt h
  have hreport := p.charge_report_le error
  omega

theorem charge_extraSemicolons_le (p : Parser β) : p.extraSemicolons.charge ≤ p.charge := by
  fun_induction extraSemicolons p with
  | case1 p t h ht ih => exact ih.trans (charge_report_advance_le _ (by simp [h]))
  | case2 | case3 | case4 => exact Nat.le_refl _

theorem charge_recoverInBlock_le (p : Parser β) : p.recoverInBlock.charge ≤ p.charge := by
  fun_induction recoverInBlock p with
  | case1 | case5 => exact Nat.le_refl _
  | case2 p t h ht => exact p.advance.charge_extraSemicolons_le.trans p.charge_advance_le
  | case3 p t h hend hsemicolon ih => exact ih.trans p.charge_advance_le
  | case4 p pos h ih => exact ih.trans p.charge_advance_le

theorem charge_recoverOutOfBlock_le (p : Parser β) : p.recoverOutOfBlock.charge ≤ p.charge := by
  fun_induction recoverOutOfBlock p with
  | case1 | case3 | case7 => exact Nat.le_refl _
  | case2 p t h k hk ht b hb hmem ih => exact ih.trans (charge_report_advance_le _ (by simp [h]))
  | case4 p t h k hk ht hb ih => exact ih.trans p.charge_advance_le
  | case5 p t h hmain hother ih => exact ih.trans p.charge_advance_le
  | case6 p pos h ih => exact ih.trans p.charge_advance_le

theorem charge_syntaxError_le (p : Parser β) (error : SyntaxError) :
    (p.syntaxError error).charge ≤ p.charge + 1 := by
  have hreport := p.charge_report_le error
  have hpassed : (if error.plan.advance then (p.report error).advance else p.report error).charge ≤
      p.charge + 1 := by
    split
    · exact (p.report error).charge_advance_le.trans hreport
    · exact hreport
  simp only [syntaxError]
  split
  · exact hpassed
  · exact (charge_recoverInBlock_le _).trans hpassed
  · exact (charge_recoverOutOfBlock_le _).trans hpassed

/-- The symbol at which a stray is reported is passed over. -/
theorem charge_strayError_le (b : Block) (hend : p.sees (.keyword .endBlock) = false)
    (heof : ∀ q, p.current ≠ .eof q) : (p.syntaxError b.strayError).charge ≤ p.charge := by
  have hpassed : (p.report b.strayError).recoverInBlock.charge ≤ p.charge := by
    rw [recoverInBlock]
    split
    · next t h =>
      split
      · next ht =>
        have h' : p.current = .token t := h
        simp [sees, h', ht] at hend
      · exact (charge_extraSemicolons_le _).trans (charge_report_advance_le _ heof)
      · exact (charge_recoverInBlock_le _).trans (charge_report_advance_le _ heof)
    · exact (charge_recoverInBlock_le _).trans (charge_report_advance_le _ heof)
    · next q h => exact absurd h (heof q)
  cases b <;> exact hpassed

/-- An error costs one. -/
theorem measure_charge : Measure (charge (β := β)) 1 := ⟨charge_advance_le, charge_syntaxError_le⟩

/-- The name that a declaration starts with pays for its one error. -/
theorem charge_declaration_le (b : Block) (first : Word) (h : ∀ q, p.current ≠ .eof q) :
    (p.declaration b first).charge ≤ p.charge := by
  have hfirst := charge_advance_lt h
  have hrun := b.nonGrowing_attempt measure_charge first p.advance
  rw [declaration]
  generalize b.attempt first p.advance = r at hrun
  cases hrun with
  | ok hle =>
      exact ((charge_act_le _ _).trans (Nat.add_le_add_right hle 1)).trans hfirst
  | error hle => exact hle.trans hfirst

/-- In a block, one error at most is not paid for: that its end is missing. -/
theorem charge_body_le (b : Block) (p : Parser β) : (p.body b).charge ≤ p.charge + 1 := by
  fun_induction body b p with
  | case1 p t h text ht ih =>
      exact ih.trans (Nat.add_le_add_right (charge_declaration_le b _ (by simp [h])) 1)
  | case2 p t h ht =>
      exact (charge_advance_le _).trans (p.charge_act_le _)
  | case3 p t h k hend ht => exact p.charge_syntaxError_le _
  | case4 p t h ht ih => exact ih.trans (Nat.add_le_add_right p.charge_extraSemicolons_le 1)
  | case5 p t h ht ih | case6 p t h ht ih | case7 p t h ht ih | case8 p t h ht ih
  | case9 p t h _ ht ih =>
      refine ih.trans (Nat.add_le_add_right (charge_strayError_le b ?_ (by simp [h])) 1)
      simp [sees, h, ht]
  | case10 p pos h ih =>
      refine ih.trans (Nat.add_le_add_right (charge_strayError_le b ?_ (by simp [h])) 1)
      simp [sees, h]
  | case11 p pos h => exact p.charge_syntaxError_le _

theorem charge_seek_le (b : Block) (p : Parser β) :
    (p.seek b).charge ≤ p.charge + 1 := by
  rw [seek]
  split
  · exact Nat.le_succ _
  · exact p.charge_syntaxError_le _

/-- A block that is missing costs an error; the keyword of one that is not pays for its end. -/
theorem charge_blocks_le (bs : List Block) (p : Parser β) :
    (blocks bs p).charge ≤ p.charge + bs.length + 1 := by
  induction bs generalizing p with
  | nil =>
      rw [blocks]
      split
      · exact Nat.le_succ _
      · exact p.charge_syntaxError_le _
  | cons b bs ih =>
      have hseek := charge_seek_le b p
      rw [blocks, List.length_cons]
      split
      · next hsees =>
        have hadvance : (p.seek b).advance.charge < (p.seek b).charge := by
          refine charge_advance_lt fun q heof => ?_
          simp [sees, heof] at hsees
        have hbody : (body b ((p.seek b).advance.enter b)).charge ≤
            (p.seek b).advance.charge + 1 := charge_body_le b _
        have hrest := ih (body b ((p.seek b).advance.enter b))
        omega
      · have hrest := ih (p.seek b)
        omega

/-- **No more than four errors are not paid for by the text.** -/
theorem errors_run_le (names : NameTable) (builder : β) (text : String) :
    (run names builder text).progress.errors ≤ text.toList.length + 4 := by
  have hstart : (start names builder text).advance.charge ≤ 0 + text.toList.length :=
    (start names builder text).charge_advance_le_length
  have hblocks : (run names builder text).charge ≤ _ := charge_blocks_le Block.all _
  have hlength : Block.all.length = 3 := rfl
  rw [charge] at hblocks
  omega

/-- An empty text has all four: each block is missing, and so is the end. -/
example : (run .empty (⟨[], [], [], true⟩ : Scripted) "").progress.errors = 4 := by decide +kernel

end Parser

/--
**Words of 32 bits are enough** for every text of so many characters that four more can be counted.
No line, no column and no number of errors is too large, wherever the scanner is and however many
items were dealt with.
-/
theorem parse_fits {β : Type} [NetworkBuilder β] (names : NameTable) (builder : β) {text : String}
    (h : text.toList.length + 4 < UInt32.size) :
    let scanner := Scanner.start names text
    let r := parse names builder text
    (∀ n, (scanner.after n).pos.Fits ∧ (scanner.symbol n).pos.Fits) ∧
      (∀ items, items <+: (Outline.ofStream (.ofText text)).items →
        ((Progress.start builder).steps r.names.idFor items).2.errors < UInt32.size) ∧
      r.errorCount < UInt32.size := by
  intro scanner r
  have hnames : (Parser.run names builder text).scanner.names = r.names :=
    congrArg Parsed.names (Parser.parsed_run names builder text)
  have hprogress := (Parser.follows_run names builder text).progress
  rw [hnames] at hprogress
  have herrors : ((Progress.start builder).steps r.names.idFor
      (Outline.ofStream (.ofText text)).items).2.errors < UInt32.size := by
    have hrun := Parser.errors_run_le names builder text
    rw [hprogress] at hrun
    exact hrun.trans_lt h
  refine ⟨Scanner.fits_of_length_lt names (by omega), ?_, ?_⟩
  · rintro items ⟨later, hitems⟩
    rw [← hitems, Progress.steps_append] at herrors
    exact (Progress.errors_le_steps _ _ later).trans_lt herrors
  · have htracks := Progress.tracks_steps (Progress.tracks_start builder) r.names.idFor
      (Outline.ofStream (.ofText text)).items
    rw [htracks.errors] at herrors
    exact herrors

end LogicNet
