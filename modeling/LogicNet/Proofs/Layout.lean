import Mathlib
import LogicNet.Circuit.Basic
import LogicNet.Proofs.Ascent
import LogicNet.Proofs.Lexing
import LogicNet.Proofs.Relocation

/-!
# Layout does not matter

Two texts whose symbols agree but for their places are parsed alike. The symbols of a text stand at
different places, so the stream of one text is the stream of the other with its places changed, and
parsing looks at no place (`parse_of_moved`). What is reported is reported at corresponding symbols.

Texts agree so, in particular, if one has other blanks and comments between its symbols than the
other (`parse_layout`). Blanks and comments part what stands before them from what stands behind
them, whichever they are: no name and no number goes on through them, and no comment is open behind
them that was not open before. So a text that is cut there has the tokens of its two halves
(`TokenStream.behind_append`).
-/

namespace LogicNet

open Text

/-! ## Streams that agree but for places -/

/-- A symbol without its place. -/
def Symbol.unplaced (x : Symbol) : Symbol := x.moved fun _ => .start

/-- The position that stands in `qs` where `p` stands in `ps`. -/
def Text.Position.exchange (ps qs : List Position) (p : Position) : Position :=
  ((ps.zip qs).lookup p).getD p

theorem Text.Position.map_exchange {ps qs : List Position} (hps : ps.Nodup)
    (hlength : ps.length = qs.length) : ps.map (exchange ps qs) = qs := by
  induction ps generalizing qs with
  | nil => exact (List.length_eq_zero_iff.mp hlength.symm).symm
  | cons p ps ih =>
      obtain ⟨q, qs, rfl⟩ := List.exists_cons_of_length_eq_add_one hlength.symm
      obtain ⟨hp, hps⟩ := List.nodup_cons.mp hps
      have hhead : exchange (p :: ps) (q :: qs) p = q := by simp [exchange]
      have htail : ∀ x ∈ ps, exchange (p :: ps) (q :: qs) x = exchange ps qs x := by
        intro x hx
        have hne : x ≠ p := fun heq => hp (heq ▸ hx)
        simp [exchange, List.lookup_cons, beq_eq_false_iff_ne.mpr hne]
      rw [List.map_cons, hhead, List.map_congr_left htail, ih hps (by simpa using hlength)]

/-- A symbol is what it says and its place. -/
theorem Symbol.ext_unplaced {x y : Symbol} (h : x.unplaced = y.unplaced) (hpos : x.pos = y.pos) :
    x = y := by
  cases x with
  | token t =>
      cases y with
      | token u =>
          obtain ⟨lexeme, p⟩ := t
          obtain ⟨lexeme', q⟩ := u
          obtain rfl : p = q := hpos
          have hlexeme : lexeme = lexeme' := congrArg Token.lexeme (Symbol.token.inj h)
          rw [hlexeme]
      | openComment | eof => cases h
  | openComment p =>
      cases y with
      | openComment q => exact congrArg openComment hpos
      | token | eof => cases h
  | eof p =>
      cases y with
      | eof q => exact congrArg eof hpos
      | token | openComment => cases h

theorem Symbol.ext_map {xs ys : List Symbol} (h : xs.map unplaced = ys.map unplaced)
    (hpos : xs.map pos = ys.map pos) : xs = ys := by
  induction xs generalizing ys with
  | nil => exact (List.map_eq_nil_iff.mp h.symm).symm
  | cons x xs ih =>
      cases ys with
      | nil => cases h
      | cons y ys =>
          obtain ⟨hx, hxs⟩ := List.cons.inj h
          obtain ⟨hx', hxs'⟩ := List.cons.inj hpos
          rw [ext_unplaced hx hx', ih hxs hxs']

@[simp] theorem Symbol.unplaced_moved (f : Position → Position) (x : Symbol) :
    (x.moved f).unplaced = x.unplaced := by
  cases x <;> rfl

@[simp] theorem Symbol.pos_moved (f : Position → Position) (x : Symbol) :
    (x.moved f).pos = f x.pos := by
  cases x <;> rfl

namespace TokenStream

/-- A stream is given by its symbols. -/
theorem symbols_injective : Function.Injective symbols := by
  intro s s' h
  obtain ⟨ts, e⟩ := s
  obtain ⟨us, e'⟩ := s'
  induction ts generalizing us with
  | nil =>
      obtain ⟨_ | p, stop⟩ := e <;> obtain ⟨_ | q, stop'⟩ := e' <;> cases us <;>
        simp_all [symbols, Ending.symbols]
  | cons t ts ih =>
      cases us with
      | nil =>
          obtain ⟨_ | q, stop'⟩ := e' <;> simp [symbols, Ending.symbols] at h
      | cons u us =>
          obtain ⟨htoken, hrest⟩ := List.cons.inj h
          obtain rfl := Symbol.token.inj htoken
          obtain ⟨rfl, rfl⟩ := TokenStream.mk.inj (ih us hrest)
          rfl

/-- A stream that agrees with an ordered one but for places is that stream with places changed. -/
theorem exists_moved {s s' : TokenStream} (hs : s.ending.Ordered s.tokens)
    (h : s.symbols.map Symbol.unplaced = s'.symbols.map Symbol.unplaced) :
    ∃ f : Position → Position, s' = s.moved f := by
  let ps := s.symbols.map Symbol.pos
  let qs := s'.symbols.map Symbol.pos
  have hps : ps.Nodup := by
    refine List.Pairwise.imp ?_ hs
    rintro p _ hlt rfl
    exact Position.Before.irrefl p hlt
  have hlength : ps.length = qs.length := by
    simpa [ps, qs] using congrArg List.length h
  refine ⟨Position.exchange ps qs, symbols_injective (Symbol.ext_map ?_ ?_)⟩
  · rw [symbols_moved, ← h, List.map_map]
    exact (List.map_congr_left fun x _ => Symbol.unplaced_moved _ x).symm
  · rw [symbols_moved, List.map_map]
    refine (Position.map_exchange hps hlength).symm.trans ?_
    rw [List.map_map]
    exact (List.map_congr_left fun x _ => Symbol.pos_moved _ x).symm

end TokenStream

/-! ## A text that is cut -/

theorem outsideComments_append (opened : Option Position) (as bs : List Placed) :
    outsideComments opened.isSome (as ++ bs) = outsideComments opened.isSome as ++
      outsideComments (openComment? opened as).isSome bs := by
  induction as generalizing opened with
  | nil => rfl
  | cons a as ih =>
      simp only [List.cons_append, outsideComments, openComment?]
      by_cases hmarker : a.char = commentMarker
      · have hturn : (!opened.isSome) = (if opened.isSome then none else some a.pos).isSome := by
          cases opened <;> rfl
        rw [if_pos hmarker, if_pos hmarker, if_pos hmarker, hturn, ih, List.cons_append]
      · rw [if_neg hmarker, if_neg hmarker, if_neg hmarker, ih]
        cases opened <;> rfl

theorem openComment?_append (opened : Option Position) (as bs : List Placed) :
    openComment? opened (as ++ bs) = openComment? (openComment? opened as) bs := by
  induction as generalizing opened with
  | nil => rfl
  | cons a as ih =>
      simp only [List.cons_append, openComment?]
      split <;> exact ih _

/-- A run that ends in the first of two lists is taken from that list. -/
theorem span_append_of_stop {α : Type} {p : α → Bool} {as bs : List α}
    (h : as.dropWhile p = [] → ∀ b ∈ bs.head?, p b = false) :
    (as ++ bs).takeWhile p = as.takeWhile p ∧
      (as ++ bs).dropWhile p = as.dropWhile p ++ bs := by
  induction as with
  | nil =>
      have hstop := @takeWhile_append_of_stop α p [] bs (by simp) (h rfl)
      simpa using hstop
  | cons a as ih =>
      by_cases ha : p a = true
      · rw [List.dropWhile_cons_of_pos ha] at h
        simp only [List.cons_append, List.takeWhile_cons_of_pos ha, List.dropWhile_cons_of_pos ha]
        exact ⟨congrArg (a :: ·) (ih h).1, (ih h).2⟩
      · simp [ha]

theorem pos_mem_of_mem_tokensOf {cs : List Placed} {t : Token} (h : t ∈ tokensOf cs) :
    t.pos ∈ cs.map Placed.pos :=
  ((pos_tokensOf_sublist cs).trans (List.filter_sublist.map _)).mem (List.mem_map_of_mem h)

/-- No token goes on from the first of two pieces into the second. -/
def Cut (as bs : List Placed) : Prop :=
  ∀ b ∈ bs.head?, isNamePart b.char = false ∨ ∃ t ∈ tokensOf (as ++ bs), t.pos = b.pos

section

variable {c : Placed} {cs ds bs : List Placed} {t : Token}

theorem pos_ne_of_head {b : Placed} (hpos : ((c :: cs ++ bs).map Placed.pos).Nodup)
    (hb : b ∈ bs.head?) : c.pos ≠ b.pos := by
  intro heq
  rw [List.cons_append, List.map_cons, List.nodup_cons, heq] at hpos
  exact hpos.1 (List.mem_map_of_mem (List.mem_append_right _ (List.mem_of_mem_head? hb)))

/-- What comes of the rest behind a token is cut as well. -/
theorem Cut.behind (h : Cut (c :: cs) bs) (hpos : ((c :: cs ++ bs).map Placed.pos).Nodup)
    (ht : t.pos = c.pos) (hread : tokensOf (c :: cs ++ bs) = t :: tokensOf (ds ++ bs)) :
    Cut ds bs := by
  intro b hb
  refine (h b hb).imp_right fun ⟨u, hu, hub⟩ => ⟨u, ?_, hub⟩
  rw [hread] at hu
  refine (List.mem_cons.mp hu).resolve_left ?_
  rintro rfl
  exact pos_ne_of_head hpos hb (ht.symm.trans hub)

/-- A run of characters that may stand in a name ends where the text is cut. -/
theorem Cut.stop {p : Char → Bool} (hp : ∀ d, isNamePart d = false → p d = false)
    (h : Cut (c :: cs) bs) (hpos : ((c :: cs ++ bs).map Placed.pos).Nodup) (ht : t.pos = c.pos)
    (hread : tokensOf (c :: cs ++ bs) = t :: tokensOf ((cs ++ bs).dropWhile (p ·.char)))
    (hall : cs.dropWhile (p ·.char) = []) : ∀ b ∈ bs.head?, p b.char = false := by
  intro b hb
  rcases h b hb with hend | ⟨u, hu, hub⟩
  · exact hp _ hend
  · -- the run would have swallowed the character, and then no token starts there
    by_contra hgoes
    obtain ⟨bs, rfl⟩ := List.head?_eq_some_iff.mp hb
    have hrest : (cs ++ b :: bs).dropWhile (p ·.char) = bs.dropWhile (p ·.char) := by
      have hin : p b.char = true := by simpa using hgoes
      rw [List.dropWhile_append, hall]
      simp [hin]
    rw [hread, hrest] at hu
    rcases List.mem_cons.mp hu with rfl | hu
    · exact pos_ne_of_head hpos hb (ht.symm.trans hub)
    · have hlater : b.pos ∈ bs.map Placed.pos := by
        rw [← hub]
        exact ((List.dropWhile_sublist _).map _).mem (pos_mem_of_mem_tokensOf hu)
      rw [List.map_append, List.map_cons] at hpos
      exact (List.nodup_cons.mp (List.nodup_append.mp hpos).2.1).1 hlater

/-- A run is read in the first piece as in the whole. -/
theorem tokensOf_run_append {p : Char → Bool} (hp : ∀ d, isNamePart d = false → p d = false)
    {f : List Placed → Lexeme}
    (hread : ∀ xs, tokensOf (c :: xs) =
      ⟨f (xs.takeWhile (p ·.char)), c.pos⟩ :: tokensOf (xs.dropWhile (p ·.char)))
    (hpos : ((c :: cs ++ bs).map Placed.pos).Nodup) (h : Cut (c :: cs) bs)
    (ih : ((cs.dropWhile (p ·.char) ++ bs).map Placed.pos).Nodup →
      Cut (cs.dropWhile (p ·.char)) bs →
      tokensOf (cs.dropWhile (p ·.char) ++ bs) =
        tokensOf (cs.dropWhile (p ·.char)) ++ tokensOf bs) :
    tokensOf (c :: cs ++ bs) = tokensOf (c :: cs) ++ tokensOf bs := by
  obtain ⟨htake, hdrop⟩ := span_append_of_stop (h.stop hp hpos rfl (hread (cs ++ bs)))
  have hwhole := hread (cs ++ bs)
  rw [htake, hdrop] at hwhole
  have hmore : ((cs.dropWhile (p ·.char) ++ bs).map Placed.pos).Nodup :=
    hpos.sublist ((((List.dropWhile_sublist _).trans (List.sublist_cons_self c cs)).append_right
      bs).map _)
  rw [List.cons_append, hwhole, hread cs, List.cons_append, ih hmore (h.behind hpos rfl hwhole)]

end

theorem isNamePart_eq_false_iff {c : Char} : isNamePart c = false ↔
    isAlphabetic c = false ∧ isNumeric c = false ∧ c ≠ '_' := by
  simp [isNamePart, and_assoc]

/-- **A text that is cut between tokens has the tokens of both pieces.** -/
theorem tokensOf_append {as bs : List Placed} (hpos : ((as ++ bs).map Placed.pos).Nodup)
    (hcut : Cut as bs) : tokensOf (as ++ bs) = tokensOf as ++ tokensOf bs := by
  induction as using tokensOf.induct with
  | case1 => simp [tokensOf]
  | case2 c cs mark hmark ih =>
      have hread : ∀ xs, tokensOf (c :: xs) = ⟨mark, c.pos⟩ :: tokensOf xs := by
        intro xs
        simp [tokensOf, hmark]
      rw [List.cons_append, hread, hread, List.cons_append,
        ih (List.nodup_cons.mp hpos).2 (hcut.behind hpos rfl (hread _))]
  | case3 c cs hmark halpha ih =>
      refine tokensOf_run_append (fun d hd => hd)
        (f := fun xs => wordLexeme (String.ofList ((c :: xs).map Placed.char))) ?_ hpos hcut ih
      intro xs
      simp [tokensOf, hmark, halpha]
  | case4 c cs hmark halpha hdigit ih =>
      refine tokensOf_run_append ?_ (f := fun xs => numberLexeme ((c :: xs).map Placed.char)) ?_
        hpos hcut ih
      · intro d hd
        rw [isNamePart_eq_false_iff] at hd
        exact Bool.eq_false_iff.mpr fun hdigit =>
          absurd (isNumeric_of_isDigit hdigit) (Bool.eq_false_iff.mp hd.2.1)
      · intro xs
        simp [tokensOf, hmark, halpha, hdigit]
  | case5 c cs hmark halpha hdigit ih =>
      have hread : ∀ xs, tokensOf (c :: xs) = tokensOf xs := by
        intro xs
        simp [tokensOf, hmark, halpha, hdigit]
      rw [List.cons_append, hread, hread]
      refine ih (List.nodup_cons.mp hpos).2 fun b hb => (hcut b hb).imp_right fun hu => ?_
      rwa [List.cons_append, hread] at hu

/-! ## What a text says wherever it stands -/

/-- A character with its place changed. -/
def Text.Placed.moved (f : Position → Position) (c : Placed) : Placed := ⟨c.char, f c.pos⟩

section

variable (f : Position → Position) (cs : List Placed)

theorem outsideComments_moved (inside : Bool) :
    outsideComments inside (cs.map (Placed.moved f)) =
      (outsideComments inside cs).map (Placed.moved f) := by
  induction cs generalizing inside with
  | nil => rfl
  | cons c cs ih =>
      have hchar : (c.moved f).char = c.char := rfl
      rw [List.map_cons, outsideComments, outsideComments, hchar, ih, ih]
      split
      · rfl
      · split <;> rfl

theorem openComment?_moved (opened : Option Position) :
    openComment? (opened.map f) (cs.map (Placed.moved f)) = (openComment? opened cs).map f := by
  induction cs generalizing opened with
  | nil => rfl
  | cons c cs ih =>
      have hchar : (c.moved f).char = c.char := rfl
      rw [List.map_cons, openComment?, openComment?, hchar]
      split
      · rw [← ih]
        cases opened <;> rfl
      · exact ih opened

theorem tokensOf_moved :
    tokensOf (cs.map (Placed.moved f)) = (tokensOf cs).map (Token.moved f) := by
  have hrun : ∀ p : Char → Bool, (fun c : Placed => p c.char) ∘ Placed.moved f =
      fun c => p c.char := fun _ => rfl
  have hchars : ∀ xs : List Placed, (xs.map (Placed.moved f)).map Placed.char =
      xs.map Placed.char := fun xs => List.map_map
  induction cs using tokensOf.induct with
  | case1 => simp [tokensOf]
  | case2 c cs mark hmark ih =>
      have hmark' : mark? (c.moved f).char = some mark := hmark
      simp only [List.map_cons, tokensOf, hmark', hmark, ih]
      rfl
  | case3 c cs hmark halpha ih =>
      have hmark' : mark? (c.moved f).char = none := hmark
      have halpha' : isAlphabetic (c.moved f).char = true := halpha
      simp only [List.map_cons, tokensOf, hmark', hmark, halpha', halpha, if_true,
        List.takeWhile_map, List.dropWhile_map, hrun, ih, hchars]
      rfl
  | case4 c cs hmark halpha hdigit ih =>
      have hmark' : mark? (c.moved f).char = none := hmark
      have halpha' : ¬ isAlphabetic (c.moved f).char = true := halpha
      have hdigit' : (c.moved f).char.isDigit = true := hdigit
      simp only [List.map_cons, tokensOf, hmark', hmark, if_neg halpha', if_neg halpha, hdigit',
        hdigit, if_true, List.takeWhile_map, List.dropWhile_map, hrun, ih, hchars]
      rfl
  | case5 c cs hmark halpha hdigit ih =>
      have hmark' : mark? (c.moved f).char = none := hmark
      have halpha' : ¬ isAlphabetic (c.moved f).char = true := halpha
      have hdigit' : ¬ (c.moved f).char.isDigit = true := hdigit
      simp only [List.map_cons, tokensOf, hmark', hmark, if_neg halpha', if_neg halpha,
        if_neg hdigit', if_neg hdigit, ih]

end

theorem Text.pairwise_place (p : Position) (cs : List Char) :
    ((place p cs).map Placed.pos).Pairwise Position.Before :=
  (List.pairwise_append.mp (pairwise_pos_place p cs).1).1

theorem Text.nodup_pos_place (p : Position) (cs : List Char) :
    ((place p cs).map Placed.pos).Nodup := by
  refine (pairwise_place p cs).imp ?_
  rintro q _ hlt rfl
  exact Position.Before.irrefl q hlt

namespace TokenStream

/-- A stream without its places. -/
def unplaced (s : TokenStream) : TokenStream := s.moved fun _ => .start

theorem map_unplaced_symbols (s : TokenStream) :
    s.symbols.map Symbol.unplaced = s.unplaced.symbols :=
  (s.symbols_moved _).symm

/-- What a text says does not depend on what stands before it. -/
theorem unplaced_behind (before before' cs : List Char) :
    (behind before cs).unplaced = (behind before' cs).unplaced := by
  let cs' : List Placed := cs.map fun c => ⟨c, .start⟩
  have hplace : ∀ p : Position, (Text.place p cs).map (Placed.moved fun _ => .start) = cs' := by
    intro p
    have hchars := congrArg (List.map fun c => Placed.mk c .start) (map_char_place p cs)
    rwa [List.map_map] at hchars
  have hread : ∀ before, (behind before cs).unplaced =
      ⟨tokensOf (outsideComments false cs'), openComment? none cs', .start⟩ := by
    intro before
    have hopen := openComment?_moved (fun _ => .start) (Text.place (.behind before) cs) none
    rw [Option.map_none] at hopen
    rw [← hplace (.behind before), outsideComments_moved, tokensOf_moved, hopen]
    rfl
  rw [hread, hread]

/-- **A text that is cut outside its comments and between its tokens falls into two.** -/
theorem behind_append {before as bs : List Char}
    (hopen : (behind before as).ending.openComment = none)
    (hcut : ∀ b ∈ bs.head?, isNamePart b = false ∨
      ∃ t ∈ (behind before (as ++ bs)).tokens, t.pos = .behind (before ++ as)) :
    behind before (as ++ bs) =
      ⟨(behind before as).tokens ++ (behind (before ++ as) bs).tokens,
        (behind (before ++ as) bs).ending⟩ := by
  let first := Text.place (.behind before) as
  let second := Text.place (.behind (before ++ as)) bs
  have hplaced : Text.place (.behind before) (as ++ bs) = first ++ second :=
    place_behind_append before as bs
  have hnone : openComment? none first = none := hopen
  have houtside := outsideComments_append none first second
  rw [hnone, Option.isSome_none] at houtside
  have hending : openComment? none (first ++ second) = openComment? none second := by
    rw [openComment?_append, hnone]
  have htokens : tokensOf (outsideComments false first ++ outsideComments false second) =
      tokensOf (outsideComments false first) ++ tokensOf (outsideComments false second) := by
    refine tokensOf_append ?_ ?_
    · rw [← houtside, ← hplaced]
      exact (nodup_pos_place _ _).sublist ((outsideComments_sublist _ _).map _)
    · refine head?_outsideComments fun c hc => ?_
      rw [← houtside, ← hplaced]
      cases bs with
      | nil => cases hc
      | cons b bs =>
          obtain rfl := Option.some.inj hc
          exact hcut b rfl
  simp only [behind, hplaced, houtside, htokens, hending, List.append_assoc]
  rfl

end TokenStream

/-! ## Blanks and comments -/

/-- What may stand between symbols: blanks, and comments that are closed. -/
inductive Spacing : List Char → Prop
  | nil : Spacing []
  | blank {c : Char} {cs : List Char} : isBlank c = true → Spacing cs → Spacing (c :: cs)
  | comment {inside cs : List Char} : commentMarker ∉ inside → Spacing cs →
      Spacing (commentMarker :: (inside ++ commentMarker :: cs))

theorem ne_commentMarker_of_isBlank {c : Char} (h : isBlank c = true) : c ≠ commentMarker := by
  rintro rfl
  exact absurd h (by decide)

theorem Spacing.gap {cs : List Char} (h : Spacing cs) : Gap cs := by
  induction h with
  | nil => exact .nil
  | blank hc _ ih =>
      exact .ignored (ne_commentMarker_of_isBlank hc) (not_startsLexeme_of_isBlank hc) ih
  | comment hinside _ ih => exact .comment hinside ih

/-- A blank ends a name. -/
theorem isNamePart_of_isBlank {c : Char} (h : isBlank c = true) : isNamePart c = false := by
  have apart : ∀ r ∈ blankRanges, ∀ n ∈ List.range' r.1 (r.2 + 1 - r.1),
      inRanges alphabeticRanges n = false ∧ inRanges numericRanges n = false ∧
        n ≠ '_'.toNat := by decide +kernel
  obtain ⟨r, hr, hn⟩ := exists_range_of_inRanges h
  obtain ⟨halpha, hnumeric, hunderscore⟩ := apart r hr _ hn
  exact isNamePart_eq_false_iff.mpr ⟨halpha, hnumeric, fun heq => hunderscore (heq ▸ rfl)⟩

namespace TokenStream

/-- Behind a text that leaves no comment open, a gap is passed over, and parts nothing else. -/
theorem unplaced_gap {before gap : List Char} (after : List Char)
    (hopen : (behind [] before).ending.openComment = none) (hgap : Spacing gap)
    (hcut : gap = [] → ∀ c ∈ after.head?, isNamePart c = false ∨
      ∃ t ∈ (behind [] (before ++ after)).tokens, t.pos = .behind before) :
    (behind [] (before ++ (gap ++ after))).unplaced =
      ⟨(behind [] before).unplaced.tokens ++ (behind [] after).unplaced.tokens,
        (behind [] after).unplaced.ending⟩ := by
  have hhead : ∀ c ∈ (gap ++ after).head?, isNamePart c = false ∨
      ∃ t ∈ (behind [] (before ++ (gap ++ after))).tokens, t.pos = .behind ([] ++ before) := by
    cases hgap with
    | nil => simpa using hcut rfl
    | blank hc _ => simp [isNamePart_of_isBlank hc]
    | comment _ _ =>
        intro c hc
        obtain rfl := Option.some.inj hc
        exact .inl (by decide)
  have hrest : ∀ b, (behind b (gap ++ after)).unplaced = (behind [] after).unplaced := by
    intro b
    rw [behind_gap hgap.gap]
    exact unplaced_behind _ _ _
  rw [behind_append hopen hhead, ← hrest ([] ++ before)]
  simp [unplaced, moved]

/-- A symbol that starts where the text is cut starts a token, or no name can go on there. -/
theorem cut_of_symbol {before after : List Char}
    (hopen : (behind [] before).ending.openComment = none)
    (h : ∃ x ∈ (behind [] (before ++ after)).symbols, x.pos = .behind before) :
    ∀ c ∈ after.head?, isNamePart c = false ∨
      ∃ t ∈ (behind [] (before ++ after)).tokens, t.pos = .behind before := by
  intro c hc
  obtain ⟨cs, rfl⟩ := List.head?_eq_some_iff.mp hc
  obtain ⟨x, hx, hpos⟩ := h
  let first := Text.place (.behind []) before
  let second := Text.place (.behind before) (c :: cs)
  have hplaced : Text.place (.behind []) (before ++ c :: cs) = first ++ second :=
    place_behind_append [] before (c :: cs)
  rcases List.mem_append.mp hx with hx | hx
  · obtain ⟨t, ht, rfl⟩ := List.mem_map.mp hx
    exact .inr ⟨t, ht, hpos⟩
  · rcases List.mem_append.mp hx with hx | hx
    · -- what stands outside the comments stands before one that is left open, unless it opens it
      obtain ⟨q, hq, rfl⟩ := Option.map_eq_some_iff.mp (Option.mem_toList.mp hx)
      refine .inl (Bool.eq_false_iff.mpr fun hpart => ?_)
      have hmarker : c ≠ commentMarker := by
        rintro rfl
        exact absurd hpart (by decide)
      have houtside := outsideComments_append none first second
      rw [show openComment? none first = none from hopen, ← hplaced] at houtside
      have hmem : (⟨c, .behind before⟩ : Placed) ∈
          unmarked (outsideComments false (Text.place (.behind []) (before ++ c :: cs))) := by
        rw [show outsideComments false _ = _ from houtside]
        refine List.mem_filter.mpr ⟨List.mem_append_right _ ?_, by simpa using hmarker⟩
        simp [second, Text.place, outsideComments, hmarker]
      have hbefore := before_openComment (pairwise_place _ _) hq hmem
      exact Position.Before.irrefl _ (hpos ▸ hbefore)
    · -- the text does not end before its last character
      obtain rfl := List.mem_singleton.mp hx
      have hpositions := (pairwise_pos_place (.behind before) (c :: cs)).1
      rw [Position.after_behind] at hpositions
      have hbefore : (Position.behind before).Before (.behind (before ++ c :: cs)) :=
        (List.pairwise_cons.mp hpositions).1 _ (List.mem_append_right _ (List.mem_singleton_self _))
      exact absurd (hpos ▸ hbefore) (Position.Before.irrefl _)

end TokenStream

theorem Event.filterMap_diagnostic?_moved (f : Position → Position) (es : List Event) :
    (es.map (Event.moved f)).filterMap diagnostic? =
      (es.filterMap diagnostic?).map (Diagnostic.moved f) := by
  rw [List.filterMap_map, List.map_filterMap]
  refine List.filterMap_congr fun e _ => ?_
  cases e <;> rfl

theorem Event.filterMap_call?_moved (f : Position → Position) (es : List Event) :
    (es.map (Event.moved f)).filterMap call? = es.filterMap call? := by
  rw [List.filterMap_map]
  refine List.filterMap_congr fun e _ => ?_
  cases e <;> rfl

/-- What is reported is reported at a symbol of the text. -/
theorem anchor_mem_symbols {β : Type} [NetworkBuilder β] {names : NameTable} {builder : β}
    {text : String} {d : Diagnostic} (hd : d ∈ (parse names builder text).diagnostics) :
    d.anchor ∈ (TokenStream.ofText text).symbols := by
  have hclimbs := TokenStream.climbs_ofStream (TokenStream.ordered_ofText text)
  obtain ⟨item, hitem, hanchor, -⟩ := Progress.diagnostics_steps _ _ d hd
  exact (hclimbs.within item hitem d.anchor hanchor).1

/--
**Layout does not matter.** Two texts whose symbols agree in what they are and what they say, one by
one up to the end, are parsed alike: with the same verdict, the same diagnostics at corresponding
symbols, the same calls, the same builder and the same names. And so are a text and what becomes of
it when a gap between two symbols, of blanks and closed comments, is replaced by another that is not
empty: the symbols agree, whatever the two gaps are.
-/
theorem parse_layout {β : Type} [NetworkBuilder β] (names : NameTable) (builder : β) :
    (∀ text other : String,
      (TokenStream.ofText text).symbols.map Symbol.unplaced =
        (TokenStream.ofText other).symbols.map Symbol.unplaced →
      let r := parse names builder text
      let q := parse names builder other
      q.ok = r.ok ∧
      List.Forall₂ (fun d d' : Diagnostic => d.kind = d'.kind ∧ ∃ i : Nat,
          (TokenStream.ofText text).symbols[i]? = some d.anchor ∧
          (TokenStream.ofText other).symbols[i]? = some d'.anchor)
        r.diagnostics q.diagnostics ∧
      q.calls = r.calls ∧ q.builder = r.builder ∧ q.names = r.names) ∧
    ∀ before gap gap' after : String, Spacing gap.toList → Spacing gap'.toList → gap' ≠ "" →
      (TokenStream.ofText before).ending.openComment = none →
      (gap = "" → ∃ x ∈ (TokenStream.ofText (before ++ after)).symbols,
        x.pos = .behind before.toList) →
      (TokenStream.ofText (before ++ gap' ++ after)).symbols.map Symbol.unplaced =
        (TokenStream.ofText (before ++ gap ++ after)).symbols.map Symbol.unplaced := by
  refine ⟨?_, ?_⟩
  · intro text other hagree r q
    obtain ⟨f, hf⟩ := TokenStream.exists_moved (TokenStream.ordered_ofText text) hagree
    have hq : q = ⟨r.names, r.builder, r.events.map (Event.moved f), r.stop.moved f⟩ :=
      parse_of_moved f names builder hf
    have hdiagnostics : q.diagnostics = r.diagnostics.map (Diagnostic.moved f) := by
      rw [hq]
      exact Event.filterMap_diagnostic?_moved f r.events
    have hcalls : q.calls = r.calls := by
      rw [hq]
      exact Event.filterMap_call?_moved f r.events
    refine ⟨?_, ?_, hcalls, by rw [hq], by rw [hq]⟩
    · rw [Parsed.ok, hdiagnostics, List.isEmpty_map]
      rfl
    · rw [hdiagnostics, List.forall₂_map_right_iff, List.forall₂_same]
      intro d hd
      obtain ⟨i, hi⟩ := List.mem_iff_getElem?.mp (anchor_mem_symbols hd)
      refine ⟨rfl, i, hi, ?_⟩
      rw [hf, TokenStream.symbols_moved, List.getElem?_map, hi]
      rfl
  · intro before gap gap' after hgap hgap' hne hopen hplace
    simp only [← TokenStream.behind_nil] at hopen hplace ⊢
    have hread : ∀ spacing : String, Spacing spacing.toList →
        (spacing = "" → ∃ x ∈ (TokenStream.behind [] (before ++ after).toList).symbols,
          x.pos = .behind before.toList) →
        (TokenStream.behind [] (before ++ spacing ++ after).toList).unplaced =
          ⟨(TokenStream.behind [] before.toList).unplaced.tokens ++
              (TokenStream.behind [] after.toList).unplaced.tokens,
            (TokenStream.behind [] after.toList).unplaced.ending⟩ := by
      intro spacing hspacing hsymbol
      rw [String.toList_append, String.toList_append, List.append_assoc]
      refine TokenStream.unplaced_gap _ hopen hspacing fun hempty => ?_
      refine TokenStream.cut_of_symbol hopen ?_
      rw [← String.toList_append]
      exact hsymbol (by simpa using hempty)
    rw [TokenStream.map_unplaced_symbols, TokenStream.map_unplaced_symbols,
      hread gap' hgap' fun hempty => absurd hempty hne, hread gap hgap hplace]

set_option maxRecDepth 4000 in
/-- A comment in front of a semicolon, with a semicolon in it, changes nothing. -/
theorem parse_layout_comment :
    let before := "DEVICES CLOCK,1=C"
    let after := "; END CONNECTIONS END MONITOR C.Q; END MAIN_END"
    let start := Circuit.start .empty
    let r := parse start.1 start.2 (before ++ "" ++ after)
    let q := parse start.1 start.2 (before ++ "#a; b#\n" ++ after)
    r.diagnostics = [⟨.monitor .notOutput, .token ⟨.name "C", ⟨1, 48⟩⟩⟩] ∧
      q.calls = r.calls ∧ q.builder = r.builder ∧ q.names = r.names := by
  intro before after start r q
  obtain ⟨hparse, hgap⟩ := parse_layout start.1 start.2
  have hspacing : Spacing "#a; b#\n".toList := by
    have htext : "#a; b#\n".toList =
        commentMarker :: ("a; b".toList ++ commentMarker :: ['\n']) := by decide
    rw [htext]
    exact .comment (by decide) (.blank (by decide) .nil)
  have hopen : (TokenStream.ofText before).ending.openComment = none := by
    unfold before
    cbv
  have hsymbol : ∃ x ∈ (TokenStream.ofText (before ++ after)).symbols,
      x.pos = .behind before.toList := by
    have hseventh : (TokenStream.ofText (before ++ after)).symbols[6]? =
        some (.token ⟨.semicolon, ⟨1, 18⟩⟩) := by
      unfold before after
      cbv
    refine ⟨_, List.mem_of_getElem? hseventh, ?_⟩
    unfold before
    cbv
  have hagree := hgap before "" "#a; b#\n" after .nil hspacing (by decide) hopen fun _ => hsymbol
  obtain ⟨-, -, hcalls, hbuilder, hnames⟩ := hparse _ _ hagree.symm
  refine ⟨?_, hcalls, hbuilder, hnames⟩
  unfold r start before after
  cbv

end LogicNet
