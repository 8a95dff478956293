import Mathlib
import LogicNet.Diagnostic.Excerpt
import LogicNet.Proofs.Lines
import LogicNet.Proofs.Markers
import LogicNet.Sink.Basic

/-!
# The caret stands under the symbol

A place is shown as two rows, a line of the text and a caret. The line is looked up in the list of
lines and the caret put under a column that the reader of the text has counted, or, at the end of
the text, under what is left of a line when its end is trimmed. This file says what there is to see,
by the text alone: the rows show a character if they are its line and a caret right under it
(`Shows`). A symbol is shown by its first character, and the end of the text by its last visible
one.

A list of lines can be looked up beyond its end. How an excerpt is found is therefore written down
once more, with every look at a line that is not there as a failure (`locate?`), and no symbol
whatever makes it fail.
-/

namespace LogicNet

open Text

/-! ## What there is to see -/

/-- What stands above a caret's row: a tab under a tab, and a blank under anything else. -/
def beneath (c : Char) : Char := if c = '\t' then '\t' else ' '

/--
The rows show the character `c` at a place of the text: the line that it is in, without its ending,
and a caret under it. The place counts the line feeds above and the characters to the left.
-/
inductive Shows (text : List Char) : Position → Char → List String → Prop where
  | rows {above left right below : List Char} {c : Char} :
      LineAt text above (left ++ c :: right) below →
      Shows text ⟨1 + above.count '\n', 1 + left.length⟩ c
        [String.ofList (left ++ c :: right), String.ofList (left.map beneath ++ ['^'])]

/-- The rows show the last visible character of a text, or an empty line if there is none. -/
inductive ShowsEnd (text : List Char) : List String → Prop where
  | visible {before after : List Char} {c : Char} {rows : List String} :
      text = before ++ c :: after → isBlank c = false → (∀ d ∈ after, isBlank d = true) →
      Shows text (.behind before) c rows → ShowsEnd text rows
  | nothing : (∀ d ∈ text, isBlank d = true) → ShowsEnd text ["", "^"]

/-- The characters that a symbol is written with. -/
inductive Symbol.Spelt : Symbol → List Char → Prop where
  | token {t : Token} {word : List Char} : t.lexeme.Written word → Spelt (.token t) word
  | openComment {p : Position} : Spelt (.openComment p) [commentMarker]

/-! ## Finding the place -/

/--
Go back over the first `count` lines to the last of them that is visible. It fails where there are
not so many lines.
-/
def walkBack? (lines : List (List Char)) : Nat → Option Excerpt
  | 0 => some ⟨[], 1⟩
  | n + 1 => do
    let line ← lines[n]?
    let visible := trimEnd line
    if visible.isEmpty then walkBack? lines n else some ⟨line, visible.length⟩

/-- Find the line that holds a symbol, and the column of the caret. -/
def locate? (lines : List (List Char)) (symbol : Symbol) : Option Excerpt :=
  let index := symbol.pos.line - 1
  match symbol with
  | .token _ | .openComment _ => some ⟨(lines[index]?).getD [], symbol.pos.column⟩
  | .eof _ =>
    let last := min index (lines.length - 1)
    walkBack? lines (min lines.length (last + 1))

/-- Print the line, and a caret under the column. The line is taken to go on with blanks. -/
def printLocation? {σ : Type} [Sink σ] (text : String) (symbol : Symbol) (sink : σ) :
    Option (Option WriteError × σ) := do
  let e ← locate? (lines text.toList) symbol
  let padding := ((e.line ++ List.replicate (e.column - 1) ' ').take (e.column - 1)).map beneath
  return Sink.writeLines sink [String.ofList e.line, String.ofList (padding ++ ['^'])]

theorem Excerpt.padding_eq (e : Excerpt) :
    ((e.line ++ List.replicate (e.column - 1) ' ').take (e.column - 1)).map beneath =
      e.padding := by
  rw [List.take_append, List.map_append, List.take_replicate, List.map_replicate,
    Nat.min_eq_left (Nat.sub_le _ _)]
  rfl

/-- Nothing is left of a line exactly when nothing of it is visible. -/
theorem trimEnd_eq_nil_iff {line : List Char} : trimEnd line = [] ↔ isVisible line = false := by
  rw [trimEnd, List.reverse_eq_nil_iff, List.dropWhile_eq_nil_iff, isVisible, List.any_eq_false]
  simp only [List.mem_reverse, Bool.not_eq_true', Bool.not_eq_false]

/-- The last visible line among the first ones, if all of these are there. -/
theorem walkBack?_eq {lines : List (List Char)} {n : Nat} (h : n ≤ lines.length) :
    walkBack? lines n = some (match (lines.take n).reverse.find? isVisible with
      | some line => ⟨line, (trimEnd line).length⟩
      | none => ⟨[], 1⟩) := by
  induction n with
  | zero => rfl
  | succ n ih =>
      have hn : n < lines.length := h
      have hlast : (lines.take (n + 1)).reverse = lines[n] :: (lines.take n).reverse := by
        rw [List.take_add_one, List.getElem?_eq_getElem hn, List.reverse_append]
        rfl
      rw [walkBack?, List.getElem?_eq_getElem hn, Option.bind_eq_bind, Option.bind_some, hlast]
      by_cases hvisible : isVisible lines[n] = true
      · have hne : trimEnd lines[n] ≠ [] := fun hnil => by
          rw [trimEnd_eq_nil_iff.mp hnil] at hvisible
          cases hvisible
        rw [List.find?_cons_of_pos hvisible, if_neg (mt List.isEmpty_iff.mp hne)]
      · have hnil : trimEnd lines[n] = [] :=
          trimEnd_eq_nil_iff.mpr (Bool.eq_false_iff.mpr hvisible)
        rw [List.find?_cons_of_neg hvisible, if_pos (List.isEmpty_iff.mpr hnil)]
        exact ih (Nat.le_of_lt hn)

/-- **No line is missing**, whatever the symbol is, and the excerpt is the one that is specified. -/
theorem locate?_eq (lines : List (List Char)) (symbol : Symbol) :
    locate? lines symbol = some (.ofSymbol lines symbol) := by
  cases symbol with
  | token t => rw [locate?, Excerpt.ofSymbol, List.getD_eq_getElem?_getD]; rfl
  | openComment p => rw [locate?, Excerpt.ofSymbol, List.getD_eq_getElem?_getD]; rfl
  | eof p =>
      have htake : lines.take (min lines.length (min (p.line - 1) (lines.length - 1) + 1)) =
          lines.take (max p.line 1) := by
        rw [List.take_eq_take_iff]
        omega
      have hle := walkBack?_eq (Nat.min_le_left lines.length
        (min (p.line - 1) (lines.length - 1) + 1))
      rw [htake] at hle
      exact hle

/-- **What is printed is the excerpt**, for every symbol and to every sink. -/
theorem printLocation?_eq {σ : Type} [Sink σ] (text : String) (symbol : Symbol) (sink : σ) :
    printLocation? text symbol sink =
      some (Sink.writeLines sink (Excerpt.ofSymbol (lines text.toList) symbol).rows) := by
  rw [printLocation?, locate?_eq, Option.bind_eq_bind, Option.bind_some, Excerpt.padding_eq]
  rfl

/-! ## A character of a line -/

/-- Where the column is that of a character of the line, the caret stands under it. -/
theorem Excerpt.rows_eq (left right : List Char) (c : Char) :
    Excerpt.rows ⟨left ++ c :: right, 1 + left.length⟩ =
      [String.ofList (left ++ c :: right), String.ofList (left.map beneath ++ ['^'])] := by
  have hpadding : Excerpt.padding ⟨left ++ c :: right, 1 + left.length⟩ = left.map beneath := by
    have hcolumn : 1 + left.length - 1 = left.length := Nat.add_sub_cancel_left ..
    have hlength : left.length - (left ++ c :: right).length = 0 := by
      rw [List.length_append]
      omega
    rw [padding, hcolumn, hlength, List.take_left, List.replicate_zero, List.append_nil]
    rfl
  rw [rows, hpadding]

theorem ne_feed_of_visible {c : Char} (h : isBlank c = false) : c ≠ '\n' ∧ c ≠ '\r' := by
  constructor <;> rintro rfl <;> revert h <;> decide

/-- **A visible character is shown by its line and column.** -/
theorem shows_behind {c : Char} (hc : isBlank c = false) (before rest : List Char) :
    Shows (before ++ c :: rest) (.behind before) c (Excerpt.rows
      ⟨(lines (before ++ c :: rest)).getD ((Position.behind before).line - 1) [],
        (Position.behind before).column⟩) := by
  obtain ⟨hfeed, hreturn⟩ := ne_feed_of_visible hc
  obtain ⟨above, left, right, below, rfl, hline, -⟩ := exists_lineAt hfeed hreturn before rest
  have hleft : '\n' ∉ left := fun hmem => hline.whole (List.mem_append_left _ hmem)
  have hlookup := hline.getElem?_lines (by simp)
  rw [Position.behind_append hline.starts hleft]
  have hindex : 1 + above.count '\n' - 1 = above.count '\n' := Nat.add_sub_cancel_left ..
  simp only [hindex, List.getD_eq_getElem?_getD, hlookup, Option.getD_some]
  rw [Excerpt.rows_eq]
  exact .rows hline

/-! ## The last visible character -/

theorem exists_last_visible (cs : List Char) :
    (∀ d ∈ cs, isBlank d = true) ∨ ∃ before c after, cs = before ++ c :: after ∧
      isBlank c = false ∧ ∀ d ∈ after, isBlank d = true := by
  induction cs with
  | nil => exact .inl fun d hd => absurd hd List.not_mem_nil
  | cons d cs ih =>
      rcases ih with hblank | ⟨before, c, after, rfl, hc, hafter⟩
      · cases hd : isBlank d with
        | true => exact .inl (List.forall_mem_cons.mpr ⟨hd, hblank⟩)
        | false => exact .inr ⟨[], d, cs, rfl, hd, hblank⟩
      · exact .inr ⟨d :: before, c, after, rfl, hc, hafter⟩

theorem trimEnd_eq {left right : List Char} {c : Char} (hc : isBlank c = false)
    (hright : ∀ d ∈ right, isBlank d = true) : trimEnd (left ++ c :: right) = left ++ [c] := by
  have hreverse : (left ++ c :: right).reverse = right.reverse ++ c :: left.reverse := by simp
  rw [trimEnd, hreverse, List.dropWhile_append_of_pos fun d hd =>
    hright d (List.mem_reverse.mp hd), List.dropWhile_cons_of_neg (by simp [hc])]
  simp

/-- What the end of a text is shown by, where all lines are given. -/
theorem showsEnd_lines (cs : List Char) :
    ShowsEnd cs (Excerpt.rows (match (lines cs).reverse.find? isVisible with
      | some line => ⟨line, (trimEnd line).length⟩
      | none => ⟨[], 1⟩)) := by
  have hblank : ∀ {part : List Char}, (∀ d ∈ part, isBlank d = true) →
      ∀ line ∈ (lines part).reverse, ¬ isVisible line = true := by
    intro part hpart line hline hvisible
    obtain ⟨c, hc, hcv⟩ := isVisible_iff.mp hvisible
    rw [hpart c (mem_of_mem_lines (List.mem_reverse.mp hline) hc)] at hcv
    cases hcv
  rcases exists_last_visible cs with hnone | ⟨before, c, after, hcs, hc, hafter⟩
  · rw [List.find?_eq_none.mpr (hblank hnone)]
    exact .nothing hnone
  · obtain ⟨hfeed, hreturn⟩ := ne_feed_of_visible hc
    obtain ⟨above, left, right, below, rfl, hline, ending, rfl⟩ :=
      exists_lineAt hfeed hreturn before after
    rw [← hcs] at hline
    have hright : ∀ d ∈ right, isBlank d = true := fun d hd =>
      hafter d (List.mem_append_left _ hd)
    have hbelow : ∀ d ∈ below, isBlank d = true := fun d hd =>
      hafter d (List.mem_append_right _ (List.mem_append_right _ hd))
    have hfind : (lines cs).reverse.find? isVisible = some (left ++ c :: right) := by
      have hvisible : isVisible (left ++ c :: right) = true :=
        isVisible_iff.mpr ⟨c, by simp, hc⟩
      rw [hline.lines_eq (by simp), List.reverse_append, List.reverse_cons, List.append_assoc,
        List.find?_append, List.find?_eq_none.mpr (hblank hbelow), Option.none_or]
      exact List.find?_cons_of_pos hvisible
    have hlength : (trimEnd (left ++ c :: right)).length = 1 + left.length := by
      rw [trimEnd_eq hc hright, List.length_append, List.length_singleton, Nat.add_comm]
    have hleft : '\n' ∉ left := fun hmem => hline.whole (List.mem_append_left _ hmem)
    rw [hfind]
    simp only [hlength]
    rw [Excerpt.rows_eq]
    refine .visible hcs hc hafter ?_
    rw [Position.behind_append hline.starts hleft]
    exact .rows hline

/-- The end of the file is shown at the last visible character of the lines up to its own. -/
theorem showsEnd_eof (cs : List Char) (p : Position) :
    ShowsEnd (upToLine (max p.line 1) cs) (Excerpt.ofSymbol (lines cs) (.eof p)).rows := by
  have hends := showsEnd_lines (upToLine (max p.line 1) cs)
  rw [lines_upToLine] at hends
  exact hends

/-! ## Symbols -/

/-- A lexeme starts with a visible character. -/
theorem Lexeme.Written.exists_visible {lexeme : Lexeme} {word : List Char}
    (h : lexeme.Written word) : ∃ c more, word = c :: more ∧ isBlank c = false := by
  have hvisible : ∀ {c : Char}, StartsLexeme c → isBlank c = false := fun hstarts =>
    Bool.eq_false_iff.mpr fun hblank => not_startsLexeme_of_isBlank hblank hstarts
  rcases h.kinds with ⟨c, rfl, hmark⟩ | ⟨c, cs, rfl, hc, -⟩ | ⟨c, cs, rfl, hc, -⟩
  · exact ⟨c, [], rfl, hvisible (.inl (by rw [hmark]; rfl))⟩
  · exact ⟨c, cs, rfl, hvisible (.inr (.inl hc))⟩
  · exact ⟨c, cs, rfl, hvisible (.inr (.inr hc))⟩

/-- **A symbol that stands in a text is shown by its first character.** -/
theorem Symbol.Stands.shows {before ahead : List Char} {symbol : Symbol}
    (h : symbol.Stands before ahead) (hne : ∀ p, symbol ≠ .eof p) :
    ∃ c more rest, ahead = c :: more ++ rest ∧ symbol.Spelt (c :: more) ∧
      Shows (before ++ ahead) symbol.pos c
        (Excerpt.ofSymbol (lines (before ++ ahead)) symbol).rows := by
  cases h with
  | token hword =>
      obtain ⟨c, more, rfl, hc⟩ := hword.exists_visible
      exact ⟨c, more, _, rfl, .token hword, shows_behind hc before _⟩
  | openComment hinside =>
      exact ⟨commentMarker, [], _, rfl, .openComment, shows_behind (by decide) before _⟩
  | eof => exact absurd rfl (hne _)

/--
**The caret stands under the symbol.** Whatever symbol the reader of a text finds before its end, it
is shown by two rows: the line that holds its first character, without the ending, and a caret under
just that character. Tabs to the left are repeated, and every other character leaves a blank.
-/
theorem caret_under_symbol {σ : Type} [Sink σ] (names : NameTable) (text : String) (n : Nat) :
    let symbol := (Scanner.start names text).symbol n
    (∃ p, symbol = .eof p) ∨
      ∃ before c more rest rows, text.toList = before ++ (c :: more ++ rest) ∧
        symbol.pos = .behind before ∧ symbol.Spelt (c :: more) ∧
        Shows text.toList symbol.pos c rows ∧
        ∀ sink : σ, printLocation? text symbol sink = some (Sink.writeLines sink rows) := by
  intro symbol
  by_cases hend : ∃ p, symbol = .eof p
  · exact .inl hend
  have hsymbol : symbol = (TokenStream.ofText text).symbolAt n :=
    (Scanner.reads_start names text).symbol_eq n
  obtain ⟨before, ahead, htext, hstands, -⟩ :=
    TokenStream.stands_ofText (TokenStream.symbolAt_mem (.ofText text) n)
  rw [← hsymbol] at hstands
  obtain ⟨c, more, rest, rfl, hspelt, hshows⟩ :=
    hstands.shows fun p hp => hend ⟨p, hp⟩
  rw [← htext] at hshows
  exact .inr ⟨before, c, more, rest, _, htext, hstands.pos_eq, hspelt, hshows,
    fun sink => printLocation?_eq text symbol sink⟩

/-- A tab to the left of the caret is repeated, and the ending of the line is not shown. -/
example : (Excerpt.ofSymbol (lines "DEVICES\r\n\tNAND, 2 = ;\r\n".toList)
    (.token ⟨.semicolon, ⟨2, 12⟩⟩)).rows = ["\tNAND, 2 = ;", "\t          ^"] := by
  cbv

/--
**The caret at the end stands under the last visible character.** The end that the reader of a text
finds is shown at the last visible character of the whole text, comments included, and an end on any
other line at the last one of the lines up to that number. A text without visible characters is
shown by an empty line with a caret in its first column. There is no line zero, and the number zero
stands for the first line. No line is missing on the way, whatever symbol is shown.
-/
theorem caret_under_last_visible {σ : Type} [Sink σ] (names : NameTable) (text : String) :
    (∀ n p, (Scanner.start names text).symbol n = .eof p → ∃ rows, ShowsEnd text.toList rows ∧
        ∀ sink : σ, printLocation? text (.eof p) sink = some (Sink.writeLines sink rows)) ∧
      (∀ p, ∃ rows, ShowsEnd (upToLine (max p.line 1) text.toList) rows ∧
        ∀ sink : σ, printLocation? text (.eof p) sink = some (Sink.writeLines sink rows)) ∧
      ∀ symbol, ∀ sink : σ, (printLocation? text symbol sink).isSome = true := by
  have hany : ∀ p, ∃ rows, ShowsEnd (upToLine (max p.line 1) text.toList) rows ∧
      ∀ sink : σ, printLocation? text (.eof p) sink = some (Sink.writeLines sink rows) :=
    fun p => ⟨_, showsEnd_eof text.toList p, fun sink => printLocation?_eq text (.eof p) sink⟩
  refine ⟨fun n p hn => ?_, hany, fun symbol sink => ?_⟩
  · rw [(Scanner.reads_start names text).symbol_eq] at hn
    obtain ⟨before, ahead, htext, hstands, -⟩ :=
      TokenStream.stands_ofText (TokenStream.symbolAt_mem (.ofText text) n)
    rw [hn] at hstands
    cases hstands with
    | eof =>
        rw [List.append_nil] at htext
        have hall : upToLine (max (Position.behind text.toList).line 1) text.toList = text.toList :=
          upToLine_of_count_lt (by simp only [Position.behind]; omega)
        have hrows := hany (.behind text.toList)
        rw [hall] at hrows
        rw [← htext]
        exact hrows
  · rw [printLocation?_eq]
    rfl

theorem ShowsEnd.eq_of_nil {rows : List String} (h : ShowsEnd [] rows) : rows = ["", "^"] := by
  cases h with
  | visible htext => simp at htext
  | nothing => rfl

/-- The number zero is shown as line one, and not as no line at all. -/
theorem not_showsEnd_line_zero :
    ¬ ShowsEnd (upToLine 0 "A".toList)
      (Excerpt.ofSymbol (lines "A".toList) (.eof ⟨0, 0⟩)).rows := by
  intro h
  have hrows : (Excerpt.ofSymbol (lines "A".toList) (.eof ⟨0, 0⟩)).rows = ["A", "^"] := by cbv
  rw [hrows] at h
  exact absurd h.eq_of_nil (by decide)

end LogicNet
