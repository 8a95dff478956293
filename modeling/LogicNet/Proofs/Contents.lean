import LogicNet.Proofs.Findings
import LogicNet.Proofs.Segment
import Mathlib.Data.List.Nodup

/-!
# What stands in a file

Which blocks of a file are entered, and which declarations stand in them, can be said without a
reader. In a block each semicolon closes a stretch of tokens, and a stretch that has the form of a
declaration is one; the block ends behind its `END`, or before a keyword where a declaration could
start. Between blocks everything is passed over up to `MAIN_END` or the keyword of a block that was
not entered, and if that is the block whose turn it is, it is entered.

The reader of a block stops where the block ends (`Outline.rest_body`), however broken its
declarations are, and so it enters the same blocks (`Outline.bodies_of_entered`,
`Outline.bodies_of_missing`).
-/

namespace LogicNet

open Text (Position)

namespace Block

/-! ## In a block -/

/-- The declaration that the tokens are, from the first to the last. -/
def declaration? (b : Block) : List Token → Option Declaration
  | [] => none
  | t :: ts =>
    match t.name? with
    | none => none
    | some text =>
      match b.reader ⟨text, t.pos⟩ ts with
      | .ok d [] => some d
      | _ => none

/-- The declarations of a block, each with the place of its semicolon, and what is behind it. -/
structure Contents where
  declarations : List (Declaration × Position)
  rest : List Token

/-- Contents with perhaps one more declaration before them. -/
def Contents.behind (c : Contents) (d : Option (Declaration × Position)) : Contents :=
  ⟨d.toList ++ c.declarations, c.rest⟩

/-- The contents of a block, of which `stretch` are the tokens behind the semicolon before. -/
def contents (b : Block) (stretch : List Token) : List Token → Contents
  | [] => ⟨[], []⟩
  | t :: ts =>
    match t.lexeme with
    | .semicolon =>
      (b.contents [] ts).behind ((b.declaration? (stretch ++ [t])).map fun d => (d, t.pos))
    | .keyword k =>
      if k = .endBlock then ⟨[], ts⟩
      else if stretch = [] then ⟨[], t :: ts⟩
      else b.contents (stretch ++ [t]) ts
    | _ => b.contents (stretch ++ [t]) ts

variable {b : Block} {d : Declaration} {stretch ts us : List Token} {t : Token}

theorem declaration?_eq_some_iff : b.declaration? ts = some d ↔ b.Declares d ts := by
  refine ⟨?_, ?_⟩
  · intro h
    cases ts with
    | nil => cases h
    | cons t ts =>
        rw [declaration?] at h
        split at h
        · cases h
        · next text htext =>
          split at h
          · next d' hrun =>
            cases h
            obtain ⟨us, hd, rfl⟩ := (b.reads_reader _).taken hrun
            rw [List.append_nil, Token.eq_word htext]
            exact hd
          · cases h
  · intro h
    obtain ⟨w, us, rfl⟩ := h.eq_cons
    have hrun := (b.reads_reader w).takes h []
    rw [List.append_nil] at hrun
    simp only [declaration?, Token.name?, Word.token, Lexeme.name?, hrun]

theorem contents_semicolon (h : t.lexeme = .semicolon) :
    b.contents stretch (t :: ts) =
      (b.contents [] ts).behind ((b.declaration? (stretch ++ [t])).map fun d => (d, t.pos)) := by
  rw [contents, h]

/-- A stretch that is no declaration leaves nothing. -/
theorem contents_broken (h : t.lexeme = .semicolon)
    (hnone : ∀ d, ¬ b.Declares d (stretch ++ [t])) :
    b.contents stretch (t :: ts) = b.contents [] ts := by
  have hd : b.declaration? (stretch ++ [t]) = none :=
    Option.eq_none_iff_forall_ne_some.mpr fun d hd => hnone d (declaration?_eq_some_iff.mp hd)
  rw [contents_semicolon h, hd]
  rfl

theorem contents_surplus (h : t.lexeme = .semicolon) :
    b.contents [] (t :: ts) = b.contents [] ts := by
  refine contents_broken h fun d hd => ?_
  obtain ⟨w, us, hw⟩ := hd.eq_cons
  obtain rfl : t = w.token := (List.cons.inj hw).1
  cases h

theorem contents_end (h : t.lexeme = .keyword .endBlock) :
    b.contents stretch (t :: ts) = ⟨[], ts⟩ := by
  simp [contents, h]

theorem contents_keyword {k : Keyword} (h : t.lexeme = .keyword k) (hk : k ≠ .endBlock) :
    b.contents [] (t :: ts) = ⟨[], t :: ts⟩ := by
  simp [contents, h, hk]

/-- A token that neither closes a stretch nor ends the block belongs to the stretch. -/
theorem contents_inner (h : ¬ t.Closes) (hstart : stretch = [] → ∀ k, t.lexeme ≠ .keyword k) :
    b.contents stretch (t :: ts) = b.contents (stretch ++ [t]) ts := by
  rw [contents]
  split
  · next ht => exact absurd (.inl ht) h
  · next k ht =>
    have hk : k ≠ .endBlock := fun hk => h (.inr (hk ▸ ht))
    have hstretch : stretch ≠ [] := fun hnil => hstart hnil k ht
    rw [if_neg hk, if_neg hstretch]
  · rfl

theorem contents_append (hstretch : stretch ≠ []) (hus : ∀ t ∈ us, ¬ t.Closes) :
    b.contents stretch (us ++ ts) = b.contents (stretch ++ us) ts := by
  induction us generalizing stretch with
  | nil => rw [List.nil_append, List.append_nil]
  | cons u us ih =>
      rw [List.cons_append, contents_inner (hus u (by simp)) fun h => absurd h hstretch,
        ih (by simp) fun t ht => hus t (by simp [ht]), List.append_assoc, List.singleton_append]

/-- A declaration stands where it is written. -/
theorem Declares.exists_contents (h : b.Declares d us) :
    ∃ vs p, us = vs ++ [⟨.semicolon, p⟩] ∧
      ∀ ts, b.contents [] (us ++ ts) = (b.contents [] ts).behind (some (d, p)) := by
  obtain ⟨vs, p, hus, hvs⟩ := h.eq_snoc
  obtain ⟨w, ws, hw⟩ := h.eq_cons
  refine ⟨vs, p, hus, fun ts => ?_⟩
  cases vs with
  | nil => exact absurd (hw ▸ hus) (by simp [Word.token])
  | cons v vs =>
      have hv : v = w.token := (List.cons.inj (hus ▸ hw)).1
      rw [hus, List.append_assoc, List.cons_append,
        contents_inner (hvs v (by simp)) (by simp [hv, Word.token]),
        contents_append (by simp) fun t ht => hvs t (by simp [ht]), List.singleton_append,
        List.nil_append, contents_semicolon rfl, List.singleton_append, ← hus,
        declaration?_eq_some_iff.mpr h]
      rfl

/-- What begins a declaration and is none closes nothing. -/
theorem Begins.not_closes (h : b.Begins ts) (hnone : ∀ d, ¬ b.Declares d ts) :
    ∀ t ∈ ts, ¬ t.Closes := by
  obtain ⟨d, us, hd⟩ := h
  obtain ⟨vs, p, heq, hvs⟩ := hd.eq_snoc
  rcases us.eq_nil_or_concat' with rfl | ⟨us, u, rfl⟩
  · rw [List.append_nil] at hd
    exact absurd hd (hnone d)
  · rw [← List.append_assoc] at heq
    obtain ⟨rfl, -⟩ := List.append_inj' heq rfl
    exact fun t ht => hvs t (List.mem_append_left us ht)

/-- What is behind a block is behind it in the text. -/
theorem rest_contents_suffix (b : Block) (stretch ts : List Token) :
    (b.contents stretch ts).rest <:+ ts := by
  induction ts generalizing stretch with
  | nil => exact List.suffix_refl _
  | cons t ts ih =>
      have hinner : ∀ stretch, (b.contents stretch ts).rest <:+ t :: ts := fun stretch =>
        (ih stretch).trans (List.suffix_cons t ts)
      rw [contents]
      split
      · exact hinner []
      · split
        · exact List.suffix_cons t ts
        · split
          · exact List.suffix_refl _
          · exact hinner _
      · exact hinner _

/-- What is declared in a block is written there. -/
theorem exists_infix_of_mem_contents {p : Position}
    (h : (d, p) ∈ (b.contents stretch ts).declarations) :
    ∃ us, b.Declares d us ∧ us <:+: stretch ++ ts := by
  induction ts generalizing stretch with
  | nil => exact absurd h List.not_mem_nil
  | cons t ts ih =>
      have hlonger : ∀ {us}, us <:+: ts → us <:+: stretch ++ t :: ts := fun hus =>
        hus.trans ((List.suffix_cons t ts).trans (List.suffix_append stretch _)).isInfix
      have hinner : (d, p) ∈ (b.contents (stretch ++ [t]) ts).declarations →
          ∃ us, b.Declares d us ∧ us <:+: stretch ++ t :: ts := by
        intro h
        obtain ⟨us, hd, hus⟩ := ih h
        rw [List.append_assoc] at hus
        exact ⟨us, hd, hus⟩
      rw [contents] at h
      split at h
      · rcases List.mem_append.mp h with h | h
        · -- the stretch that the semicolon closes
          obtain ⟨d', hd, heq⟩ := Option.map_eq_some_iff.mp (Option.mem_toList.mp h)
          obtain ⟨rfl, -⟩ := Prod.mk.inj heq
          refine ⟨stretch ++ [t], declaration?_eq_some_iff.mp hd, ?_⟩
          exact ((List.prefix_append (stretch ++ [t]) ts).trans
            (by rw [List.append_assoc]; exact List.prefix_refl _)).isInfix
        · obtain ⟨us, hd, hus⟩ := ih h
          exact ⟨us, hd, hlonger hus⟩
      · split at h
        · exact absurd h List.not_mem_nil
        · split at h
          · exact absurd h List.not_mem_nil
          · exact hinner h
      · exact hinner h

/-! ## In a file -/

end Block

/-- Between blocks, a token is passed over unless it ends the file or starts a new block. -/
def Token.isPassed (entered : List Block) (t : Token) : Bool :=
  match t.lexeme with
  | .keyword k => k != .mainEnd && (Block.ofKeyword? k).all (entered.contains ·)
  | _ => true

/-- The blocks that are entered, in turn, each with what stands behind its keyword. -/
def Block.bodies (entered : List Block) : List Block → List Token → List (Block × List Token)
  | [], _ => []
  | b :: bs, ts =>
    match ts.dropWhile (·.isPassed entered) with
    | [] => bodies entered bs []
    | t :: rest =>
      if t.lexeme = .keyword b.keyword then
        (b, rest) :: bodies (b :: entered) bs (b.contents [] rest).rest
      else bodies entered bs (t :: rest)

/-- The bodies of blocks are written in the text. -/
theorem Block.suffix_of_mem_bodies {entered bs : List Block} {b : Block} {ts rest : List Token}
    (h : (b, rest) ∈ bodies entered bs ts) : rest <:+ ts := by
  induction bs generalizing entered ts with
  | nil => exact absurd h List.not_mem_nil
  | cons c bs ih =>
      have hdrop := List.dropWhile_suffix (l := ts) (·.isPassed entered)
      rw [bodies] at h
      split at h
      · exact (ih h).trans List.nil_suffix
      · next t rest' heq =>
        rw [heq] at hdrop
        have hrest : rest' <:+ ts := (List.suffix_cons t rest').trans hdrop
        split at h
        · rcases List.mem_cons.mp h with heq | h
          · cases heq
            exact hrest
          · exact (ih h).trans ((rest_contents_suffix c [] rest').trans hrest)
        · exact (ih h).trans hdrop

/-- The declarations in all the blocks that are entered, each with the place of its semicolon. -/
def TokenStream.declarations (s : TokenStream) : List (Declaration × Position) :=
  (Block.bodies [] Block.all s.tokens).flatMap fun x => (x.1.contents [] x.2).declarations

namespace Outline

variable {e : Ending} {entered bs : List Block} {b : Block} {stretch ts rest : List Token}
  {t : Token} {items : List Item}

/-! ## Reading goes on where the next stretch starts -/

theorem contents_extraSemicolons (e : Ending) (ts : List Token) :
    b.contents [] (extraSemicolons e ts).rest = b.contents [] ts := by
  induction ts with
  | nil => rfl
  | cons t ts ih =>
      unfold extraSemicolons
      split
      · next ht => rw [rest_behind, ih, Block.contents_surplus ht]
      · rfl

theorem contents_recoverInBlock (e : Ending)
    (hbroken : ∀ d us, b.Declares d (stretch ++ us) → ¬ us <+: ts)
    (hstart : stretch = [] → ∀ t ∈ ts.head?, ∀ k, t.lexeme ≠ .keyword k) :
    b.contents [] (recoverInBlock e ts).rest = b.contents stretch ts := by
  induction ts generalizing stretch with
  | nil => rfl
  | cons t ts ih =>
      unfold recoverInBlock
      split
      · next ht => rw [rest_nothing, Block.contents_end ht, Block.contents_end ht]
      · next ht =>
        rw [rest_behind, contents_extraSemicolons,
          Block.contents_broken ht fun d hd => hbroken d [t] hd ⟨ts, rfl⟩]
      · next hend hsemicolon =>
        have hinner : ¬ t.Closes := fun h => h.elim hsemicolon hend
        rw [rest_behind, Block.contents_inner hinner fun h => hstart h t rfl]
        refine ih ?_ fun h => absurd h (by simp)
        intro d us hd hus
        rw [List.append_assoc, List.singleton_append] at hd
        exact hbroken d (t :: us) hd (List.cons_prefix_cons.mpr ⟨rfl, hus⟩)

/-- Behind a declaration that is broken, what stands in the block is what stood there before. -/
theorem contents_report {w : Word} {pre : List Token} {error : SyntaxError}
    (herror : error.InDeclaration) (hbegins : b.Begins (w.token :: pre))
    (hnone : ∀ d us, b.Declares d (w.token :: us) → ¬ us <+: pre ++ rest) :
    b.contents [] (report e entered error rest).rest =
      b.contents [] (w.token :: (pre ++ rest)) := by
  have hpre : ∀ t ∈ w.token :: pre, ¬ t.Closes :=
    hbegins.not_closes fun d hd => hnone d pre hd (List.prefix_append _ _)
  rw [report_of_inDeclaration herror, rest_behind,
    Block.contents_inner (hpre _ (by simp)) (by simp [Word.token]),
    Block.contents_append (by simp) fun t ht => hpre t (by simp [ht])]
  refine contents_recoverInBlock e ?_ (by simp)
  intro d us hd hus
  exact hnone d (pre ++ us) hd ((List.prefix_append_right_inj pre).mpr hus)

theorem contents_stray (ht : t.Stray) :
    b.contents [] (report e entered b.strayError (t :: ts)).rest = b.contents [] (t :: ts) := by
  rw [report_of_inDeclaration b.strayError_inDeclaration, rest_behind]
  refine contents_recoverInBlock e ?_ ?_
  · intro d us hd hus
    obtain ⟨w, vs, rfl⟩ := hd.eq_cons
    obtain rfl : w.token = t := (List.cons_prefix_cons.mp hus).1
    exact absurd ht.1 (by simp [Token.name?, Word.token, Lexeme.name?])
  · intro _ u hu
    obtain rfl : t = u := Option.some.inj hu
    exact ht.2.2

/-- **Reading a block stops where the block ends.** -/
theorem rest_body (e : Ending) (entered : List Block) (b : Block) (ts : List Token) :
    (body e entered b ts).rest = (b.contents [] ts).rest := by
  induction ts using body_cases e entered b with
  | nil => rw [body_nil]; rfl
  | word w ts ih =>
      rw [body_word, rest_behind, ih]
      rcases declaration_cases e entered b w ts with
        ⟨d, us, rest, hd, rfl, hread⟩ | ⟨hnone, error, pre, rest, herror, rfl, hbegins, -, hread⟩
      · obtain ⟨vs, p, -, hcontents⟩ := hd.exists_contents
        rw [hread, ← List.cons_append, hcontents]
        rfl
      · rw [hread, rest_behind, contents_report herror hbegins hnone]
  | closed t ts ht => rw [body_end ht, Block.contents_end ht]
  | keyword t ts k ht hk =>
      rw [body_keyword ht hk, Block.contents_keyword ht hk]
      rfl
  | semicolon t ts ht ih => rw [body_semicolon ht, rest_behind, ih, Block.contents_surplus ht]
  | stray t ts ht ih => rw [body_stray ht, rest_behind, ih, contents_stray ht]

/-! ## Reading enters the same blocks -/

theorem rest_recoverOutOfBlock (e : Ending) (entered : List Block) (ts : List Token) :
    (recoverOutOfBlock e entered ts).rest = ts.dropWhile (·.isPassed entered) := by
  induction ts with
  | nil => rfl
  | cons t ts ih =>
      unfold recoverOutOfBlock
      split
      · next ht => simp [Token.isPassed, ht]
      · next k hk ht =>
        have hpassed : t.isPassed entered = (Block.ofKeyword? k).all (entered.contains ·) := by
          have hne : (k != .mainEnd) = true := bne_iff_ne.mpr hk
          simp [Token.isPassed, ht, hne]
        rw [List.dropWhile_cons, hpassed]
        split
        · next b hb =>
          by_cases hmem : b ∈ entered
          · simp [hb, hmem, ih]
          · simp [hb, hmem]
        · next hb => simp [hb, ih]
      · next hmain hother =>
        have hpassed : t.isPassed entered = true := by
          rw [Token.isPassed]
          split
          · next k ht => exact absurd ht (hother k)
          · rfl
        rw [List.dropWhile_cons, hpassed, rest_behind, ih, if_pos rfl]

/-- Seeking a block that was not entered passes over what stands between blocks. -/
theorem rest_seek (e : Ending) (hb : b ∉ entered) (ts : List Token) :
    (seek e entered b ts).rest = ts.dropWhile (·.isPassed entered) := by
  have hreport : (report e entered b.missingError ts).rest =
      (recoverOutOfBlock e entered ts).rest := by
    cases b <;> rfl
  rw [seek]
  split
  · next hts =>
    obtain ⟨t, ht, hlexeme⟩ := Option.map_eq_some_iff.mp hts
    obtain ⟨us, rfl⟩ := List.head?_eq_some_iff.mp ht
    have hof : Block.ofKeyword? b.keyword = some b := Block.ofKeyword?_eq_some_iff.mpr rfl
    have hpassed : t.isPassed entered = false := by
      simp [Token.isPassed, hlexeme, hof, hb]
    rw [List.dropWhile_cons, hpassed]
    rfl
  · rw [hreport, rest_recoverOutOfBlock]

theorem bodies_of_entered (hb : b ∉ entered) (hrest : (seek e entered b ts).rest = t :: rest)
    (ht : t.lexeme = .keyword b.keyword) :
    Block.bodies entered (b :: bs) ts =
      (b, rest) :: Block.bodies (b :: entered) bs (body e (b :: entered) b rest).rest := by
  rw [rest_seek e hb] at hrest
  simp only [Block.bodies, hrest, ht, if_true, rest_body]

theorem bodies_of_missing (hb : b ∉ entered)
    (h : ∀ t ∈ (seek e entered b ts).rest.head?, t.lexeme ≠ .keyword b.keyword) :
    Block.bodies entered (b :: bs) ts = Block.bodies entered bs (seek e entered b ts).rest := by
  rw [rest_seek e hb] at h ⊢
  cases hrest : ts.dropWhile (·.isPassed entered) with
  | nil => simp only [Block.bodies, hrest]
  | cons t rest =>
      have ht : t.lexeme ≠ .keyword b.keyword := h t (by simp [hrest])
      simp only [Block.bodies, hrest, ht, if_false]

end Outline

end LogicNet
