import LogicNet.NameTable
import LogicNet.Proofs.Lexing

/-!
# A scanner that reads a text once

The token stream of a text is made in two steps, comments first. A scanner needs one: it goes
through the text character by character, and each time it is asked it passes over what stands before
the next lexeme, counts lines and columns as it goes, and enters the names that it finds in a table.

Asked again and again, it returns the symbols of the stream of its text, in order, and then the end
of the text for ever (`Scanner.Reads.symbol_eq`). What it returns is therefore known from `Scans`:
`Scanner.scans_ofText` puts the two together and adds that the number of a name always leads back to
the word that was read.
-/

namespace LogicNet

open Text

/-! ## The next symbol of a stream -/

namespace TokenStream

/--
The next symbol of a stream, and the stream behind it. A comment that is left open is met once, and
the end of the text again and again.
-/
def next (s : TokenStream) : Symbol × TokenStream :=
  match s.tokens, s.ending.openComment with
  | t :: ts, _ => (.token t, ⟨ts, s.ending⟩)
  | [], some p => (.openComment p, ⟨[], none, s.ending.stop⟩)
  | [], none => (.eof s.ending.stop, s)

theorem symbolAt_zero (s : TokenStream) : s.symbolAt 0 = s.next.1 := by
  obtain ⟨tokens, openComment, stop⟩ := s
  cases tokens with
  | cons t ts => rfl
  | nil => cases openComment <;> rfl

theorem symbolAt_succ (s : TokenStream) (n : Nat) : s.symbolAt (n + 1) = s.next.2.symbolAt n := by
  obtain ⟨tokens, openComment, stop⟩ := s
  cases tokens with
  | cons t ts => rfl
  | nil =>
      cases openComment with
      | some p => rfl
      | none =>
          -- the end of the text is not passed
          cases n <;> rfl

/-- From the end of the text on, all symbols are the same. -/
theorem symbolAt_of_length_le {s : TokenStream} {n : Nat} (h : s.symbols.length ≤ n + 1) :
    s.symbolAt n = .eof s.ending.stop := by
  have hsymbols : s.symbols = (s.tokens.map .token ++
      (s.ending.openComment.map Symbol.openComment).toList) ++ [.eof s.ending.stop] := by
    rw [symbols, Ending.symbols, List.append_assoc]
  rw [hsymbols, List.length_append, List.length_singleton, Nat.add_le_add_iff_right] at h
  rw [symbolAt, hsymbols, List.getD_eq_getElem?_getD, List.getElem?_append_right h]
  generalize n - _ = i
  cases i <;> rfl

end TokenStream

/-! ## The scanner -/

/-- The word that a symbol is, a name or a keyword, if it is one. -/
def Symbol.word? : Symbol → Option String
  | .token ⟨.name text, _⟩ => some text
  | .token ⟨.keyword k, _⟩ => some k.spelling
  | .token _ | .openComment _ | .eof _ => none

/-- The name in a symbol, if it is one. -/
def Symbol.name? : Symbol → Option String
  | .token t => t.name?
  | .openComment _ | .eof _ => none

/-- A place in a text, what is still to be read there, and the names that were met so far. -/
structure Scanner where
  pos : Position
  rest : List Char
  names : NameTable

namespace Scanner

/-- A scanner before a text. The keywords are entered first, in their order. -/
def start (names : NameTable) (text : String) : Scanner :=
  ⟨.start, text.toList, names.internAll Keyword.spellings⟩

/--
The next symbol of a text that starts at `p`, and the rest of the text behind the symbol. The first
argument is the marker of the comment that the text starts in.
-/
def scan : Option Position → Position → List Char → Symbol × Position × List Char
  | none, p, [] => (.eof p, p, [])
  | some opening, p, [] => (.openComment opening, p, [])
  | some opening, p, c :: cs =>
    if c = commentMarker then scan none (p.next c) cs else scan (some opening) (p.next c) cs
  | none, p, c :: cs =>
    if isBlank c then scan none (p.next c) cs
    else if c = commentMarker then scan (some p) (p.next c) cs
    else
      match mark? c with
      | some mark => (.token ⟨mark, p⟩, p.next c, cs)
      | none =>
        if isAlphabetic c then
          let word := c :: cs.takeWhile isNamePart
          (.token ⟨wordLexeme (String.ofList word), p⟩, p.after word, cs.dropWhile isNamePart)
        else if c.isDigit then
          let digits := c :: cs.takeWhile Char.isDigit
          (.token ⟨numberLexeme digits, p⟩, p.after digits, cs.dropWhile Char.isDigit)
        else scan none (p.next c) cs

/-- Return the next symbol, and enter it in the table if it is a name. -/
def next (s : Scanner) : Symbol × Scanner :=
  let found := scan none s.pos s.rest
  (found.1, ⟨found.2.1, found.2.2, found.1.name?.elim s.names s.names.intern⟩)

/-- The scanner after it has returned `n` symbols. -/
def after (s : Scanner) : Nat → Scanner
  | 0 => s
  | n + 1 => s.next.2.after n

/-- The symbol that is returned behind `n` others. -/
def symbol (s : Scanner) (n : Nat) : Symbol := (s.after n).next.1

/-! ## What a scanner returns -/

theorem scan_inside (opening : Position) {inside : List Char} (h : commentMarker ∉ inside)
    (before cs : List Char) :
    scan (some opening) (.behind before) (inside ++ cs) =
      scan (some opening) (.behind (before ++ inside)) cs := by
  induction inside generalizing before with
  | nil => rw [List.nil_append, List.append_nil]
  | cons c inside ih =>
      rw [List.mem_cons, not_or] at h
      rw [List.cons_append, scan, if_neg (Ne.symm h.1), ← Position.behind_concat, ih h.2,
        List.append_assoc, List.singleton_append]

theorem scan_marker (before cs : List Char) :
    scan none (.behind before) (commentMarker :: cs) =
      scan (some (.behind before)) (.behind (before ++ [commentMarker])) cs := by
  have hblank : isBlank commentMarker = false := by decide
  rw [scan, Position.behind_concat]
  simp [hblank]

/-- Gaps are passed over. -/
theorem scan_gap {gap : List Char} (h : Gap gap) (before cs : List Char) :
    scan none (.behind before) (gap ++ cs) = scan none (.behind (before ++ gap)) cs := by
  induction h generalizing before with
  | nil => rw [List.nil_append, List.append_nil]
  | @ignored c gap hne hstart _ ih =>
      have hpassed : scan none (.behind before) (c :: (gap ++ cs)) =
          scan none (.behind (before ++ [c])) (gap ++ cs) := by
        simp only [StartsLexeme, not_or, Bool.not_eq_true, Option.isSome_eq_false_iff,
          Option.isNone_iff_eq_none] at hstart
        obtain ⟨hmark, halpha, hdigit⟩ := hstart
        rw [scan, Position.behind_concat]
        simp [hne, hmark, halpha, hdigit]
      rw [List.cons_append, hpassed, ih, List.append_assoc, List.singleton_append]
  | @comment inside gap hinside _ ih =>
      rw [List.cons_append, List.append_assoc, scan_marker, scan_inside _ hinside,
        List.cons_append, scan, if_pos rfl, ← Position.behind_concat, ih]
      simp

/-- A lexeme is returned where it stands. -/
theorem scan_lexeme {lexeme : Lexeme} {word rest : List Char} (h : lexeme.Written word)
    (hstop : ∀ c ∈ rest.head?, lexeme.goesOnWith c = false) (before : List Char) :
    scan none (.behind before) (word ++ rest) =
      (.token ⟨lexeme, .behind before⟩, .behind (before ++ word), rest) := by
  have hstart : ∀ c, StartsLexeme c → isBlank c = false ∧ c ≠ commentMarker := by
    intro c hc
    refine ⟨Bool.eq_false_iff.mpr fun hblank => not_startsLexeme_of_isBlank hblank hc, ?_⟩
    rintro rfl
    exact not_startsLexeme_commentMarker hc
  rw [← Position.after_behind]
  rcases h.kinds with ⟨c, rfl, hmark⟩ | ⟨c, cs, rfl, hc, hcs, rfl, hgoes⟩ |
    ⟨c, cs, rfl, hc, hcs, rfl, hgoes⟩
  · obtain ⟨hblank, hne⟩ := hstart c (.inl (Option.isSome_of_eq_some hmark))
    rw [List.singleton_append, scan]
    simp [hblank, hne, hmark]
  · obtain ⟨hblank, hne⟩ := hstart c (.inr (.inl hc))
    rw [hgoes] at hstop
    obtain ⟨htake, hdrop⟩ := takeWhile_append_of_stop hcs hstop
    rw [List.cons_append, scan]
    simp [hblank, hne, mark?_eq_none_of_isAlphabetic hc, hc, htake, hdrop]
  · obtain ⟨hblank, hne⟩ := hstart c (.inr (.inr hc))
    rw [hgoes] at hstop
    obtain ⟨htake, hdrop⟩ := takeWhile_append_of_stop hcs hstop
    rw [List.cons_append, scan]
    simp [hblank, hne, mark?_eq_none_of_isDigit hc, isAlphabetic_eq_false_of_isDigit hc, hc, htake,
      hdrop]

variable {scanner : Scanner} {s : TokenStream}

/-- Somewhere in a text, the symbols that a scanner is still to return are those of `s`. -/
def Reads (scanner : Scanner) (s : TokenStream) : Prop :=
  ∃ before, scanner.pos = .behind before ∧ TokenStream.behind before scanner.rest = s

theorem reads_start (names : NameTable) (text : String) : (start names text).Reads (.ofText text) :=
  ⟨[], rfl, TokenStream.behind_nil text⟩

/-- **A scanner returns the next symbol of its stream**, and goes on with what is behind it. -/
theorem Reads.next (h : scanner.Reads s) :
    scanner.next.1 = s.next.1 ∧ scanner.next.2.Reads s.next.2 := by
  obtain ⟨before, hpos, rfl⟩ := h
  obtain ⟨pos, cs, names⟩ := scanner
  obtain rfl : pos = .behind before := hpos
  obtain ⟨ts, e, hscans⟩ := exists_scans before cs
  cases hscans with
  | ends hgap =>
      have hscan := scan_gap hgap before []
      have hbehind := TokenStream.behind_gap hgap before []
      rw [List.append_nil] at hscan hbehind
      rw [hbehind, TokenStream.behind_end]
      exact ⟨congrArg Prod.fst hscan, _, congrArg (·.2.1) hscan,
        by simp only [Scanner.next, hscan, scan, TokenStream.behind_end, TokenStream.next]⟩
  | @endsInComment _ gap inside hgap hinside =>
      have hscan : scan none (.behind before) (gap ++ commentMarker :: inside) =
          (.openComment (.behind (before ++ gap)),
            .behind (before ++ gap ++ [commentMarker] ++ inside), []) := by
        have hinside' := scan_inside (.behind (before ++ gap)) hinside
          (before ++ gap ++ [commentMarker]) []
        rw [List.append_nil] at hinside'
        rw [scan_gap hgap, scan_marker, hinside', scan]
      rw [TokenStream.behind_gap hgap, TokenStream.behind_openComment hinside]
      refine ⟨congrArg Prod.fst hscan, _, congrArg (·.2.1) hscan, ?_⟩
      simp only [Scanner.next, hscan, TokenStream.behind_end, TokenStream.next]
      simp
  | @lexeme _ gap word rest lexeme ts _ hgap hword hstop hrest =>
      have hscan : scan none (.behind before) (gap ++ (word ++ rest)) = _ :=
        (scan_gap hgap before _).trans (scan_lexeme hword hstop _)
      rw [TokenStream.behind_gap hgap, TokenStream.behind_lexeme hword hstop]
      exact ⟨congrArg Prod.fst hscan, _, congrArg (·.2.1) hscan,
        by simp only [Scanner.next, hscan, TokenStream.next]⟩

/-- **The symbols that a scanner returns are those of its stream**, in order. -/
theorem Reads.symbol_eq (h : scanner.Reads s) (n : Nat) : scanner.symbol n = s.symbolAt n := by
  induction n generalizing scanner s with
  | zero => rw [TokenStream.symbolAt_zero]; exact h.next.1
  | succ n ih => rw [TokenStream.symbolAt_succ]; exact ih h.next.2

/-! ## The names that a scanner enters -/

/-- A name stays in the table and keeps its number. -/
theorem names_next {w : String} (h : w ∈ scanner.names.names) :
    w ∈ scanner.next.2.names.names ∧
      scanner.next.2.names.idFor w = scanner.names.idFor w := by
  rw [next]
  cases (scan none scanner.pos scanner.rest).1.name? with
  | none => exact ⟨h, rfl⟩
  | some x =>
      exact ⟨NameTable.mem_names_intern.mpr (.inl h), NameTable.idFor_intern_of_mem h⟩

theorem names_after {w : String} (h : w ∈ scanner.names.names) (n : Nat) :
    w ∈ (scanner.after n).names.names ∧
      (scanner.after n).names.idFor w = scanner.names.idFor w := by
  induction n generalizing scanner with
  | zero => exact ⟨h, rfl⟩
  | succ n ih =>
      obtain ⟨hmem, hid⟩ := names_next h
      obtain ⟨hmem', hid'⟩ := ih hmem
      exact ⟨hmem', hid'.trans hid⟩

theorem after_add (scanner : Scanner) (m n : Nat) :
    scanner.after (m + n) = (scanner.after m).after n := by
  induction m generalizing scanner with
  | zero => rw [Nat.zero_add]; rfl
  | succ m ih => rw [Nat.succ_add]; exact ih scanner.next.2

/-- A word that was returned leads back from its number, if the keywords were entered before. -/
theorem lookup?_word (hkeywords : ∀ k : Keyword, k.spelling ∈ scanner.names.names) {w : String}
    (hw : w ∈ scanner.next.1.word?) (n : Nat) :
    (scanner.next.2.after n).names.lookup? (scanner.names.idFor w) = some w := by
  have hentered : w ∈ scanner.next.2.names.names ∧
      scanner.next.2.names.idFor w = scanner.names.idFor w := by
    cases hsymbol : scanner.next.1 with
    | openComment p | eof p =>
        rw [hsymbol] at hw
        cases hw
    | token t =>
        obtain ⟨lexeme, p⟩ := t
        rw [hsymbol] at hw
        cases lexeme with
        | name text =>
            obtain rfl : text = w := Option.some.inj hw
            have hnames : scanner.next.2.names = scanner.names.intern text := by
              have hscan : (scan none scanner.pos scanner.rest).1 = .token ⟨.name text, p⟩ :=
                hsymbol
              simp only [next, hscan]
              rfl
            rw [hnames]
            exact ⟨NameTable.mem_names_intern.mpr (.inr rfl), NameTable.idFor_intern_self⟩
        | keyword k =>
            obtain rfl : k.spelling = w := Option.some.inj hw
            exact names_next (hkeywords k)
        | comma | semicolon | equals | dash | dot | number => cases hw
  obtain ⟨hmem, hid⟩ := names_after hentered.1 n
  rw [← hentered.2, ← hid]
  exact NameTable.lookup?_idFor hmem

/--
**What a scanner returns.** The text falls into lexemes and gaps as `Scans` says, and its symbols
are returned in that order; they stand one behind the other, and from the end of the text on the end
is returned again. The number that a name or a keyword has when it is returned leads back to the
word, then and ever after.
-/
theorem scans_ofText (names : NameTable) (text : String) :
    let s := TokenStream.ofText text
    let scanner := start names text
    Scans [] text.toList s.tokens s.ending ∧
      (∀ n, scanner.symbol n = s.symbolAt n) ∧
      (∀ n, s.symbols.length ≤ n + 1 → scanner.symbol n = .eof s.ending.stop) ∧
      (s.symbols.map Symbol.pos).Pairwise Position.Before ∧
      ∀ n, ∀ w ∈ (scanner.symbol n).word?, ∀ m, n < m →
        (scanner.after m).names.lookup? ((scanner.after n).names.idFor w) = some w := by
  intro s scanner
  have hreads := (reads_start names text).symbol_eq
  refine ⟨scans_iff.mpr (TokenStream.behind_nil text), hreads, ?_, TokenStream.ordered_ofText text,
    ?_⟩
  · intro n hn
    exact (hreads n).trans (TokenStream.symbolAt_of_length_le hn)
  · intro n w hw m hm
    have hkeywords : ∀ k : Keyword, k.spelling ∈ (scanner.after n).names.names := by
      intro k
      have hstart : k.spelling ∈ scanner.names.names :=
        NameTable.mem_names_internAll.mpr (.inr (List.mem_map_of_mem k.mem_all))
      exact (names_after hstart n).1
    obtain ⟨i, rfl⟩ := Nat.exists_eq_add_of_lt hm
    rw [Nat.add_assoc, after_add, Nat.add_comm i 1, after_add]
    exact lookup?_word hkeywords hw i

end Scanner

end LogicNet
