import LogicNet.Proofs.Places
import LogicNet.Text.Blank
import Mathlib.Data.List.Induction
import Mathlib.Data.List.TakeWhile
import Mathlib.Data.Nat.Digits.Defs

/-!
# How a text falls into lexemes

Each text is a sequence of lexemes with gaps between them. A gap holds comments and characters that
start no lexeme, and nothing else; a word or a number goes on as far as its characters do; and
behind the last lexeme there is a gap and perhaps a comment that is never closed. `Scans` says so
without a scanner, and tells where everything stands by counting the characters before it.

The token stream of a text is the only one that it can be scanned into (`scans_iff`). That is shown
from both sides: whatever `Scans` allows is what the stream of the text is, gap by gap, and each
text can be scanned somehow.
-/

namespace LogicNet

open Text

/-! ## Where a character stands -/

namespace Text.Position

/--
The place behind the text `before`. The line is the number of line feeds and one more, the column
the number of characters behind the last line feed and one more.
-/
def behind (before : List Char) : Position :=
  ⟨1 + before.count '\n', 1 + (before.reverse.takeWhile (· != '\n')).length⟩

theorem behind_concat (before : List Char) (c : Char) :
    behind (before ++ [c]) = (behind before).next c := by
  by_cases hc : c = '\n'
  · simp [behind, next, hc, Nat.add_assoc]
  · have hcount : [c].count '\n' = 0 := List.count_eq_zero.mpr (by simpa using Ne.symm hc)
    simp [behind, next, hc, hcount, Nat.add_comm]

/-- Counting step by step is counting at once. -/
theorem after_behind (before cs : List Char) :
    (behind before).after cs = behind (before ++ cs) := by
  induction cs generalizing before with
  | nil => rw [List.append_nil, after_nil]
  | cons c cs ih => rw [after_cons, ← behind_concat, ih, List.append_assoc, List.singleton_append]

end Text.Position

/-! ## Lexemes and gaps -/

/-- A character starts a lexeme if it is a mark, a letter or a digit. -/
def StartsLexeme (c : Char) : Prop :=
  (mark? c).isSome = true ∨ isAlphabetic c = true ∨ c.isDigit = true

/-- The value of a digit. -/
def digitValue (d : Char) : Nat := d.toNat - '0'.toNat

/-- The characters that a lexeme is written with. -/
inductive Lexeme.Written : Lexeme → List Char → Prop
  | comma : Written .comma [',']
  | semicolon : Written .semicolon [';']
  | equals : Written .equals ['=']
  | dash : Written .dash ['-']
  | dot : Written .dot ['.']
  | keyword (k : Keyword) : Written (.keyword k) k.spelling.toList
  /-- A number has any number of digits, zeros in front among them, but its value has a limit. -/
  | number {digits : List Char} : digits ≠ [] → (∀ d ∈ digits, d.isDigit = true) →
      Written (.number (min (Nat.ofDigits 10 (digits.reverse.map digitValue)) (2 ^ 63 - 1))) digits
  /-- A name is a word that is not spelt like a keyword. -/
  | name {c : Char} {cs : List Char} : isAlphabetic c = true → (∀ d ∈ cs, isNamePart d = true) →
      (∀ k : Keyword, k.spelling.toList ≠ c :: cs) →
      Written (.name (String.ofList (c :: cs))) (c :: cs)

/-- The characters that would belong to a lexeme if they stood behind it. -/
def Lexeme.goesOnWith : Lexeme → Char → Bool
  | keyword _, c | name _, c => isNamePart c
  | number _, c => c.isDigit
  | comma, _ | semicolon, _ | equals, _ | dash, _ | dot, _ => false

/-- What stands between lexemes: characters that start none, blanks among them, and comments. -/
inductive Gap : List Char → Prop
  | nil : Gap []
  | ignored {c : Char} {cs : List Char} :
      c ≠ commentMarker → ¬ StartsLexeme c → Gap cs → Gap (c :: cs)
  | comment {inside cs : List Char} :
      commentMarker ∉ inside → Gap cs → Gap (commentMarker :: (inside ++ commentMarker :: cs))

/-- The tokens of a text that stands behind `before`, and how the text ends. -/
inductive Scans : List Char → List Char → List Token → Ending → Prop
  | ends {before gap : List Char} : Gap gap →
      Scans before gap [] ⟨none, .behind (before ++ gap)⟩
  /-- The last gap may run into a comment that is left open. -/
  | endsInComment {before gap inside : List Char} : Gap gap → commentMarker ∉ inside →
      Scans before (gap ++ commentMarker :: inside) []
        ⟨some (.behind (before ++ gap)), .behind (before ++ (gap ++ commentMarker :: inside))⟩
  | lexeme {before gap word rest : List Char} {lexeme : Lexeme} {ts : List Token} {e : Ending} :
      Gap gap → lexeme.Written word → (∀ c ∈ rest.head?, lexeme.goesOnWith c = false) →
      Scans (before ++ gap ++ word) rest ts e →
      Scans before (gap ++ (word ++ rest)) (⟨lexeme, .behind (before ++ gap)⟩ :: ts) e

/-! ## Classes of characters are apart -/

theorem not_startsLexeme_commentMarker : ¬ StartsLexeme commentMarker := by
  unfold StartsLexeme
  decide

/-- What lies in some ranges lies in one of them. -/
theorem exists_range_of_inRanges {rs : List (Nat × Nat)} {n : Nat} (h : inRanges rs n = true) :
    ∃ r ∈ rs, n ∈ List.range' r.1 (r.2 + 1 - r.1) := by
  induction rs with
  | nil => exact absurd h (by simp [inRanges])
  | cons r rs ih =>
      rw [inRanges] at h
      split at h
      · exact absurd h (by simp)
      · next hlo =>
        rcases (Bool.or_eq_true _ _).mp h with hhi | hrest
        · have hle : n ≤ r.2 := of_decide_eq_true hhi
          exact ⟨r, List.mem_cons_self, List.mem_range'_1.mpr (by omega)⟩
        · obtain ⟨q, hq, hn⟩ := ih hrest
          exact ⟨q, List.mem_cons_of_mem r hq, hn⟩

/-- A mark is no blank, no letter and no digit, it is written as it is, and nothing prolongs it. -/
theorem mark?_eq_some {c : Char} {m : Lexeme} (h : mark? c = some m) :
    isBlank c = false ∧ isAlphabetic c = false ∧ c.isDigit = false ∧ m.Written [c] ∧
      ∀ d, m.goesOnWith d = false := by
  unfold mark? at h
  split at h <;> cases h
  · exact ⟨by decide, by decide, by decide, .comma, fun _ => rfl⟩
  · exact ⟨by decide, by decide, by decide, .semicolon, fun _ => rfl⟩
  · exact ⟨by decide, by decide, by decide, .equals, fun _ => rfl⟩
  · exact ⟨by decide, by decide, by decide, .dash, fun _ => rfl⟩
  · exact ⟨by decide, by decide, by decide, .dot, fun _ => rfl⟩

theorem mark?_eq_none_of_isAlphabetic {c : Char} (h : isAlphabetic c = true) : mark? c = none :=
  Option.eq_none_iff_forall_ne_some.mpr fun _ hm =>
    absurd h (Bool.eq_false_iff.mp (mark?_eq_some hm).2.1)

theorem mark?_eq_none_of_isDigit {c : Char} (h : c.isDigit = true) : mark? c = none :=
  Option.eq_none_iff_forall_ne_some.mpr fun _ hm =>
    absurd h (Bool.eq_false_iff.mp (mark?_eq_some hm).2.2.1)

theorem toNat_of_isDigit {c : Char} (h : c.isDigit = true) : 48 ≤ c.toNat ∧ c.toNat ≤ 57 := by
  simpa [Char.isDigit, UInt32.le_iff_toNat_le] using h

theorem isAlphabetic_eq_false_of_isDigit {c : Char} (h : c.isDigit = true) :
    isAlphabetic c = false := by
  have ascii : ∀ n < 58, 48 ≤ n → inRanges alphabeticRanges n = false := by decide
  obtain ⟨hlo, hhi⟩ := toNat_of_isDigit h
  exact ascii c.toNat (by omega) hlo

/-- Blanks start no lexeme, so nothing is lost when they are passed over. -/
theorem not_startsLexeme_of_isBlank {c : Char} (h : isBlank c = true) : ¬ StartsLexeme c := by
  have apart : ∀ r ∈ blankRanges, ∀ n ∈ List.range' r.1 (r.2 + 1 - r.1),
      inRanges alphabeticRanges n = false ∧ (n < 48 ∨ 57 < n) := by decide +kernel
  obtain ⟨r, hr, hn⟩ := exists_range_of_inRanges h
  obtain ⟨halpha, hdigit⟩ := apart r hr _ hn
  rintro (hmark | hstart | hstart)
  · obtain ⟨m, hm⟩ := Option.isSome_iff_exists.mp hmark
    exact absurd h (Bool.eq_false_iff.mp (mark?_eq_some hm).1)
  · exact absurd hstart (Bool.eq_false_iff.mp halpha)
  · have hbounds := toNat_of_isDigit hstart
    omega

/-! ## What a lexeme is read as -/

/-- The value of a run of digits is what it denotes in base ten. -/
theorem decimalValue_eq_ofDigits (digits : List Char) :
    decimalValue digits = Nat.ofDigits 10 (digits.reverse.map digitValue) := by
  induction digits using List.reverseRecOn with
  | nil => rfl
  | append_singleton digits d ih =>
      have hlast : decimalValue (digits ++ [d]) = 10 * decimalValue digits + digitValue d := by
        simp [decimalValue, digitValue, List.foldl_append]
      rw [hlast, List.reverse_concat, List.map_cons, Nat.ofDigits_cons, ← ih, Nat.add_comm]

theorem wordLexeme_spelling (k : Keyword) : wordLexeme k.spelling = .keyword k := by
  rw [wordLexeme, Keyword.ofSpelling?_eq_some_iff.mpr rfl]

theorem wordLexeme_of_ne {word : String} (h : ∀ k : Keyword, k.spelling ≠ word) :
    wordLexeme word = .name word := by
  have hnone : Keyword.ofSpelling? word = none :=
    Option.eq_none_iff_forall_ne_some.mpr fun k hk => h k (Keyword.ofSpelling?_eq_some_iff.mp hk)
  rw [wordLexeme, hnone]

/-- A keyword is a word. -/
theorem Keyword.exists_toList_eq (k : Keyword) : ∃ c cs, k.spelling.toList = c :: cs ∧
    isAlphabetic c = true ∧ cs.all isNamePart = true := by
  cases k with
  | devices => exact ⟨'D', "EVICES".toList, by decide, by decide, by decide⟩
  | connections => exact ⟨'C', "ONNECTIONS".toList, by decide, by decide, by decide⟩
  | monitor => exact ⟨'M', "ONITOR".toList, by decide, by decide, by decide⟩
  | endBlock => exact ⟨'E', "ND".toList, by decide, by decide, by decide⟩
  | mainEnd => exact ⟨'M', "AIN_END".toList, by decide, by decide, by decide⟩

/-- A lexeme is a mark, a word or a number, and is read as such. -/
theorem Lexeme.Written.kinds {lexeme : Lexeme} {word : List Char} (h : lexeme.Written word) :
    (∃ c, word = [c] ∧ mark? c = some lexeme) ∨
    (∃ c cs, word = c :: cs ∧ isAlphabetic c = true ∧ (∀ d ∈ cs, isNamePart d = true) ∧
      lexeme = wordLexeme (String.ofList word) ∧ lexeme.goesOnWith = isNamePart) ∨
    ∃ c cs, word = c :: cs ∧ c.isDigit = true ∧ (∀ d ∈ cs, d.isDigit = true) ∧
      lexeme = numberLexeme word ∧ lexeme.goesOnWith = Char.isDigit := by
  cases h with
  | comma | semicolon | equals | dash | dot => exact .inl ⟨_, rfl, rfl⟩
  | keyword k =>
      obtain ⟨c, cs, hword, hc, hcs⟩ := k.exists_toList_eq
      rw [hword]
      refine .inr (.inl ⟨c, cs, rfl, hc, List.all_eq_true.mp hcs, ?_, rfl⟩)
      rw [← hword, String.ofList_toList, wordLexeme_spelling]
  | number hne hdigits =>
      obtain ⟨c, cs, rfl⟩ := List.exists_cons_of_ne_nil hne
      simp only [List.mem_cons, forall_eq_or_imp] at hdigits
      refine .inr (.inr ⟨c, cs, rfl, hdigits.1, hdigits.2, ?_, rfl⟩)
      rw [numberLexeme, decimalValue_eq_ofDigits]
      rfl
  | @name c cs hc hcs hother =>
      refine .inr (.inl ⟨c, cs, rfl, hc, hcs, ?_, rfl⟩)
      rw [wordLexeme_of_ne fun k heq => hother k (by rw [heq, String.toList_ofList])]

/-! ## What the token stream of a text is, piece by piece -/

theorem outsideComments_append_of_no_marker {as : List Placed}
    (h : ∀ c ∈ as, c.char ≠ commentMarker) (bs : List Placed) :
    outsideComments false (as ++ bs) = as ++ outsideComments false bs := by
  induction as with
  | nil => rfl
  | cons a as ih =>
      simp only [List.mem_cons, forall_eq_or_imp] at h
      simp [outsideComments, h.1, ih h.2]

theorem outsideComments_inside {as : List Placed} (h : ∀ c ∈ as, c.char ≠ commentMarker)
    (bs : List Placed) : outsideComments true (as ++ bs) = outsideComments true bs := by
  induction as with
  | nil => rfl
  | cons a as ih =>
      simp only [List.mem_cons, forall_eq_or_imp] at h
      simp [outsideComments, h.1, ih h.2]

theorem openComment?_append_of_no_marker {as : List Placed} (opened : Option Position)
    (h : ∀ c ∈ as, c.char ≠ commentMarker) (bs : List Placed) :
    openComment? opened (as ++ bs) = openComment? opened bs := by
  induction as with
  | nil => rfl
  | cons a as ih =>
      simp only [List.mem_cons, forall_eq_or_imp] at h
      simp [openComment?, h.1, ih h.2]

theorem forall_mem_place {p : Position} {cs : List Char} {P : Char → Prop} (h : ∀ c ∈ cs, P c) :
    ∀ c ∈ place p cs, P c.char := by
  intro c hc
  have hchar : c.char ∈ (place p cs).map Placed.char := List.mem_map_of_mem hc
  rw [map_char_place] at hchar
  exact h c.char hchar

/-- Characters that are placed hold no marker if there was none. -/
theorem ne_marker_of_mem_place {cs : List Char} (h : commentMarker ∉ cs) (p : Position) :
    ∀ c ∈ place p cs, c.char ≠ commentMarker :=
  forall_mem_place (P := (· ≠ commentMarker)) fun _ hc heq => h (heq ▸ hc)

/-- The token stream of a text that stands behind `before`. -/
def TokenStream.behind (before cs : List Char) : TokenStream :=
  { tokens := tokensOf (outsideComments false (place (.behind before) cs))
    ending := ⟨openComment? none (place (.behind before) cs), .behind (before ++ cs)⟩ }

theorem tokensOf_of_not_startsLexeme {c : Placed} (h : ¬ StartsLexeme c.char) (cs : List Placed) :
    tokensOf (c :: cs) = tokensOf cs := by
  simp only [StartsLexeme, not_or, Bool.not_eq_true, Option.isSome_eq_false_iff,
    Option.isNone_iff_eq_none] at h
  obtain ⟨hmark, halpha, hdigit⟩ := h
  simp [tokensOf, hmark, halpha, hdigit]

/-- A run of characters of a class is what is taken of the class, if the rest does not go on so. -/
theorem takeWhile_append_of_stop {α : Type} {p : α → Bool} {as bs : List α}
    (has : ∀ a ∈ as, p a = true) (hbs : ∀ b ∈ bs.head?, p b = false) :
    (as ++ bs).takeWhile p = as ∧ (as ++ bs).dropWhile p = bs := by
  have hstop : bs.takeWhile p = [] ∧ bs.dropWhile p = bs := by
    cases bs with
    | nil => exact ⟨rfl, rfl⟩
    | cons b bs =>
        have hb := hbs b rfl
        simp [hb]
  rw [List.takeWhile_append_of_pos has, List.dropWhile_append_of_pos has, hstop.1, hstop.2,
    List.append_nil]
  exact ⟨rfl, rfl⟩

/-- What stands at the front is a comment marker or stands outside the comments. -/
theorem head?_outsideComments {P : Placed → Prop} {cs : List Placed} (h : ∀ c ∈ cs.head?, P c) :
    ∀ c ∈ (outsideComments false cs).head?, P c := by
  cases cs with
  | nil => simp [outsideComments]
  | cons c cs =>
      rw [outsideComments]
      split <;> simpa using h

theorem head?_place {P : Char → Prop} {p : Position} {cs : List Char} (h : ∀ c ∈ cs.head?, P c) :
    ∀ c ∈ (place p cs).head?, P c.char := by
  cases cs with
  | nil => simp [place]
  | cons c cs => simpa [place] using h

theorem place_behind_append (before as cs : List Char) :
    place (.behind before) (as ++ cs) =
      place (.behind before) as ++ place (.behind (before ++ as)) cs := by
  rw [place_append, Position.after_behind]

namespace TokenStream

theorem behind_ignored {c : Char} (hne : c ≠ commentMarker) (hstart : ¬ StartsLexeme c)
    (before cs : List Char) : behind before (c :: cs) = behind (before ++ [c]) cs := by
  have hstart' : ¬ StartsLexeme (Placed.mk c (.behind before)).char := hstart
  simp only [behind, place, outsideComments, openComment?, hne, if_false, Bool.false_eq_true,
    ← Position.behind_concat, tokensOf_of_not_startsLexeme hstart', List.append_assoc,
    List.singleton_append]

theorem behind_comment {inside : List Char} (hinside : commentMarker ∉ inside)
    (before cs : List Char) :
    behind before (commentMarker :: (inside ++ commentMarker :: cs)) =
      behind (before ++ commentMarker :: (inside ++ [commentMarker])) cs := by
  have hmarker : ∀ p, ¬ StartsLexeme (Placed.mk commentMarker p).char :=
    fun _ => not_startsLexeme_commentMarker
  have hno := ne_marker_of_mem_place hinside
  have hstop : (before ++ [commentMarker]) ++ inside ++ [commentMarker] =
      before ++ commentMarker :: (inside ++ [commentMarker]) := by simp
  have hplaced : place (.behind before) (commentMarker :: (inside ++ commentMarker :: cs)) =
      ⟨commentMarker, .behind before⟩ :: (place (.behind (before ++ [commentMarker])) inside ++
        ⟨commentMarker, .behind (before ++ [commentMarker] ++ inside)⟩ ::
          place (.behind (before ++ commentMarker :: (inside ++ [commentMarker]))) cs) := by
    rw [place, ← Position.behind_concat, place_behind_append, place, ← Position.behind_concat,
      hstop]
  simp only [behind, hplaced, outsideComments, openComment?, if_true, Bool.not_false,
    Bool.not_true, outsideComments_inside (hno _), openComment?_append_of_no_marker _ (hno _),
    tokensOf_of_not_startsLexeme (hmarker _), Option.isSome_none, Option.isSome_some, if_false,
    Bool.false_eq_true]
  simp

/-- **Gaps leave no token.** -/
theorem behind_gap {gap : List Char} (h : Gap gap) (before cs : List Char) :
    behind before (gap ++ cs) = behind (before ++ gap) cs := by
  induction h generalizing before with
  | nil => rw [List.nil_append, List.append_nil]
  | @ignored c gap hne hstart _ ih =>
      rw [List.cons_append, behind_ignored hne hstart, ih, List.append_assoc, List.singleton_append]
  | @comment inside gap hinside _ ih =>
      rw [List.cons_append, List.append_assoc, List.cons_append, behind_comment hinside, ih]
      simp

/-- A comment that is left open is noted where it starts. -/
theorem behind_openComment {inside : List Char} (hinside : commentMarker ∉ inside)
    (before : List Char) :
    behind before (commentMarker :: inside) =
      ⟨[], some (.behind before), .behind (before ++ commentMarker :: inside)⟩ := by
  have hmarker : ¬ StartsLexeme (Placed.mk commentMarker (.behind before)).char :=
    not_startsLexeme_commentMarker
  have hno := ne_marker_of_mem_place hinside
  have houtside := outsideComments_inside (hno ((Position.behind before).next commentMarker)) []
  have hopen := openComment?_append_of_no_marker (some (.behind before))
    (hno ((Position.behind before).next commentMarker)) []
  rw [List.append_nil] at houtside hopen
  simp only [behind, place, outsideComments, openComment?, if_true, Bool.not_false, houtside, hopen,
    tokensOf_of_not_startsLexeme hmarker, Option.isSome_none, Bool.false_eq_true, if_false]
  simp [tokensOf]

theorem behind_mark {c : Char} {m : Lexeme} (h : mark? c = some m) (before rest : List Char) :
    behind before (c :: rest) =
      ⟨⟨m, .behind before⟩ :: (behind (before ++ [c]) rest).tokens,
        (behind (before ++ [c]) rest).ending⟩ := by
  have hc : c ≠ commentMarker := by
    rintro rfl
    have hnone : mark? commentMarker = none := by decide
    rw [hnone] at h
    cases h
  simp only [behind, place, outsideComments, openComment?, hc, if_false, Bool.false_eq_true,
    Position.behind_concat, List.append_assoc, List.singleton_append, tokensOf, h]

/--
A run of characters of a class is read as one token up to where it ends, if no marker is in the
class and what stands behind the run is not in it either. What comes of the run is left open.
-/
theorem behind_run {P : Char → Bool} {f : List Char → Lexeme} {c : Char} {cs rest : List Char}
    (hread : ∀ p placed, tokensOf (⟨c, p⟩ :: placed) =
      ⟨f (c :: (placed.takeWhile (P ·.char)).map Placed.char), p⟩ ::
        tokensOf (placed.dropWhile (P ·.char)))
    (hne : c ≠ commentMarker) (hmarker : P commentMarker = false) (hcs : ∀ d ∈ cs, P d = true)
    (hstop : ∀ d ∈ rest.head?, P d = false) (before : List Char) :
    behind before (c :: cs ++ rest) =
      ⟨⟨f (c :: cs), .behind before⟩ :: (behind (before ++ c :: cs) rest).tokens,
        (behind (before ++ c :: cs) rest).ending⟩ := by
  have hno := ne_marker_of_mem_place fun hmem =>
    Bool.false_ne_true (hmarker.symm.trans (hcs commentMarker hmem))
  have hplaced : place (.behind before) (c :: cs ++ rest) = ⟨c, .behind before⟩ ::
      (place (.behind (before ++ [c])) cs ++ place (.behind (before ++ c :: cs)) rest) := by
    rw [List.cons_append, place, ← Position.behind_concat, place_behind_append, List.append_assoc,
      List.singleton_append]
  have hhead : ∀ d ∈ (outsideComments false (place (.behind (before ++ c :: cs)) rest)).head?,
      P d.char = false :=
    head?_outsideComments (head?_place (P := fun d => P d = false) hstop)
  obtain ⟨htake, hdrop⟩ := takeWhile_append_of_stop (p := fun x : Placed => P x.char)
    (forall_mem_place (p := .behind (before ++ [c])) hcs) hhead
  simp only [behind, hplaced, outsideComments, openComment?, hne, if_false, Bool.false_eq_true,
    outsideComments_append_of_no_marker (hno _), openComment?_append_of_no_marker _ (hno _), hread,
    htake, hdrop, map_char_place, List.append_assoc]

/-- A word is read up to where it ends. -/
theorem behind_word {c : Char} {cs rest : List Char} (hc : isAlphabetic c = true)
    (hcs : ∀ d ∈ cs, isNamePart d = true) (hstop : ∀ d ∈ rest.head?, isNamePart d = false)
    (before : List Char) :
    behind before (c :: cs ++ rest) =
      ⟨⟨wordLexeme (String.ofList (c :: cs)), .behind before⟩ ::
          (behind (before ++ c :: cs) rest).tokens,
        (behind (before ++ c :: cs) rest).ending⟩ := by
  have hne : c ≠ commentMarker := by
    rintro rfl
    exact absurd hc (by decide)
  refine behind_run (f := fun word => wordLexeme (String.ofList word)) ?_ hne (by decide) hcs hstop
    before
  intro p placed
  simp only [tokensOf, mark?_eq_none_of_isAlphabetic hc, hc, if_true, List.map_cons]

/-- A number is read up to where it ends. -/
theorem behind_number {c : Char} {cs rest : List Char} (hc : c.isDigit = true)
    (hcs : ∀ d ∈ cs, d.isDigit = true) (hstop : ∀ d ∈ rest.head?, d.isDigit = false)
    (before : List Char) :
    behind before (c :: cs ++ rest) =
      ⟨⟨numberLexeme (c :: cs), .behind before⟩ :: (behind (before ++ c :: cs) rest).tokens,
        (behind (before ++ c :: cs) rest).ending⟩ := by
  have hne : c ≠ commentMarker := by
    rintro rfl
    exact absurd hc (by decide)
  refine behind_run ?_ hne (by decide) hcs hstop before
  intro p placed
  simp only [tokensOf, mark?_eq_none_of_isDigit hc, isAlphabetic_eq_false_of_isDigit hc, hc,
    if_true, List.map_cons, Bool.false_eq_true, if_false]

/-- **A lexeme is read as the token that it is.** -/
theorem behind_lexeme {lexeme : Lexeme} {word rest : List Char} (h : lexeme.Written word)
    (hstop : ∀ c ∈ rest.head?, lexeme.goesOnWith c = false) (before : List Char) :
    behind before (word ++ rest) =
      ⟨⟨lexeme, .behind before⟩ :: (behind (before ++ word) rest).tokens,
        (behind (before ++ word) rest).ending⟩ := by
  rcases h.kinds with ⟨c, rfl, hmark⟩ | ⟨c, cs, rfl, hc, hcs, rfl, hgoes⟩ |
    ⟨c, cs, rfl, hc, hcs, rfl, hgoes⟩
  · exact behind_mark hmark before rest
  · rw [hgoes] at hstop
    exact behind_word hc hcs hstop before
  · rw [hgoes] at hstop
    exact behind_number hc hcs hstop before

/-- Behind a text there is nothing. -/
theorem behind_end (before : List Char) : behind before [] = ⟨[], none, .behind before⟩ := by
  simp [behind, place, outsideComments, openComment?, tokensOf]

end TokenStream

/-! ## Scanning -/

/-- **Whatever a text can be scanned into is its token stream.** -/
theorem Scans.behind_eq {before cs : List Char} {ts : List Token} {e : Ending}
    (h : Scans before cs ts e) : TokenStream.behind before cs = ⟨ts, e⟩ := by
  induction h with
  | @ends before gap hgap =>
      have hnil := TokenStream.behind_gap hgap before []
      rw [List.append_nil] at hnil
      rw [hnil, TokenStream.behind_end]
  | @endsInComment before gap inside hgap hinside =>
      rw [TokenStream.behind_gap hgap, TokenStream.behind_openComment hinside, List.append_assoc]
  | @lexeme before gap word rest lexeme ts e hgap hword hstop _ ih =>
      rw [TokenStream.behind_gap hgap, TokenStream.behind_lexeme hword hstop, ih]

theorem Gap.append {as bs : List Char} (has : Gap as) (hbs : Gap bs) : Gap (as ++ bs) := by
  induction has with
  | nil => exact hbs
  | ignored hne hstart _ ih => exact .ignored hne hstart ih
  | comment hinside _ ih =>
      rw [List.cons_append, List.append_assoc, List.cons_append]
      exact .comment hinside ih

/-- A gap may be longer in front. -/
theorem Scans.behind_gap {before gap cs : List Char} {ts : List Token} {e : Ending}
    (hgap : Gap gap) (h : Scans (before ++ gap) cs ts e) : Scans before (gap ++ cs) ts e := by
  cases h with
  | ends hcs =>
      rw [List.append_assoc]
      exact .ends (hgap.append hcs)
  | endsInComment hcs hinside =>
      have hall : Scans before _ _ _ := .endsInComment (hgap.append hcs) hinside
      simpa using hall
  | lexeme hcs hword hstop hrest =>
      rw [List.append_assoc before] at hrest
      have hall : Scans before _ _ _ := .lexeme (hgap.append hcs) hword hstop hrest
      simpa using hall

/-- A word is a keyword or a name. -/
theorem exists_written_word {c : Char} {cs : List Char} (hc : isAlphabetic c = true)
    (hcs : ∀ d ∈ cs, isNamePart d = true) :
    ∃ lexeme : Lexeme, lexeme.Written (c :: cs) ∧ lexeme.goesOnWith = isNamePart := by
  by_cases hk : ∃ k : Keyword, k.spelling.toList = c :: cs
  · obtain ⟨k, hk⟩ := hk
    exact ⟨.keyword k, hk ▸ .keyword k, rfl⟩
  · exact ⟨.name (String.ofList (c :: cs)), .name hc hcs fun k heq => hk ⟨k, heq⟩, rfl⟩

theorem head?_dropWhile {P : Char → Bool} (cs : List Char) :
    ∀ c ∈ (cs.dropWhile P).head?, P c = false := by
  intro c hc
  have hhead := List.head?_dropWhile_not P cs
  rwa [hc] at hhead

/-- **Each text can be scanned.** -/
theorem exists_scans (before cs : List Char) : ∃ ts e, Scans before cs ts e := by
  induction hn : cs.length using Nat.strongRecOn generalizing before cs with
  | ind n ih =>
    subst hn
    cases cs with
    | nil => exact ⟨[], _, .ends .nil⟩
    | cons c cs =>
        have hlexeme : ∀ {lexeme : Lexeme} (run : List Char) {rest : List Char}, cs = run ++ rest →
            lexeme.Written (c :: run) → (∀ d ∈ rest.head?, lexeme.goesOnWith d = false) →
            ∃ ts e, Scans before (c :: cs) ts e := by
          rintro lexeme run rest rfl hword hstop
          have hshorter : rest.length < (c :: (run ++ rest)).length := by
            simp only [List.length_cons, List.length_append]
            omega
          obtain ⟨ts, e, hrest⟩ := ih rest.length hshorter (before ++ c :: run) rest rfl
          have hall : Scans before _ _ _ := .lexeme .nil hword hstop (by simpa using hrest)
          exact ⟨_, e, by simpa using hall⟩
        by_cases hmarker : c = commentMarker
        · -- a comment, which may be left open
          subst hmarker
          by_cases hclosed : commentMarker ∈ cs
          · obtain ⟨inside, rest, rfl, hinside⟩ := List.eq_append_cons_of_mem hclosed
            have hshorter :
                rest.length < (commentMarker :: (inside ++ commentMarker :: rest)).length := by
              simp only [List.length_cons, List.length_append]
              omega
            obtain ⟨ts, e, hrest⟩ := ih rest.length hshorter
              (before ++ commentMarker :: (inside ++ [commentMarker])) rest rfl
            exact ⟨ts, e, by simpa using hrest.behind_gap (.comment hinside .nil)⟩
          · exact ⟨[], _, .endsInComment .nil hclosed⟩
        · by_cases hstart : StartsLexeme c
          · rcases hstart with hmark | halpha | hdigit
            · obtain ⟨m, hm⟩ := Option.isSome_iff_exists.mp hmark
              obtain ⟨-, -, -, hwritten, hstop⟩ := mark?_eq_some hm
              exact hlexeme [] rfl hwritten fun d _ => hstop d
            · -- a word goes on as far as it can
              have hrun := List.takeWhile_append_dropWhile (p := isNamePart) (l := cs)
              obtain ⟨lexeme, hwritten, hgoes⟩ :=
                exists_written_word halpha fun d hd => List.mem_takeWhile_imp hd
              refine hlexeme _ hrun.symm hwritten ?_
              rw [hgoes]
              exact head?_dropWhile cs
            · have hrun := List.takeWhile_append_dropWhile (p := Char.isDigit) (l := cs)
              have hdigits : ∀ d ∈ c :: cs.takeWhile Char.isDigit, d.isDigit = true :=
                List.forall_mem_cons.mpr ⟨hdigit, fun d hd => List.mem_takeWhile_imp hd⟩
              exact hlexeme _ hrun.symm (.number (List.cons_ne_nil _ _) hdigits)
                (head?_dropWhile cs)
          · obtain ⟨ts, e, hrest⟩ := ih cs.length (by simp) (before ++ [c]) cs rfl
            exact ⟨ts, e, hrest.behind_gap (.ignored hmarker hstart .nil)⟩

/-- **A text can be scanned into its token stream, and into nothing else.** -/
theorem scans_iff {before cs : List Char} {ts : List Token} {e : Ending} :
    Scans before cs ts e ↔ TokenStream.behind before cs = ⟨ts, e⟩ := by
  refine ⟨Scans.behind_eq, fun h => ?_⟩
  obtain ⟨ts', e', hscans⟩ := exists_scans before cs
  rw [hscans.behind_eq] at h
  cases h
  exact hscans

theorem TokenStream.behind_nil (text : String) : behind [] text.toList = ofText text := by
  have hstart : Position.behind [] = .start := rfl
  have hstop : Position.start.after text.toList = .behind text.toList := Position.after_behind [] _
  simp only [behind, ofText, hstart, hstop, List.nil_append]

end LogicNet
