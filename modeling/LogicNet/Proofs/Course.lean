import LogicNet.Outline.File
import LogicNet.Proofs.Reading

/-!
# The course of reading, case by case

Reading a block looks at the first token and does one of six things. This file says which, one
equation for each, so that no proof has to open the reader again; `body_cases` is the induction that
goes with the equations. The same is done for the blocks of a file: a block is entered or missing.
-/

namespace LogicNet

/-- A token that neither starts a declaration, nor closes anything, nor is a keyword. -/
def Token.Stray (t : Token) : Prop :=
  t.name? = none ∧ ¬ t.Closes ∧ ∀ k, t.lexeme ≠ .keyword k

theorem Token.eq_word {t : Token} {text : String} (h : t.name? = some text) :
    t = Word.token ⟨text, t.pos⟩ := by
  obtain ⟨lexeme, pos⟩ := t
  cases lexeme with
  | name text' =>
      cases h
      rfl
  | comma | semicolon | equals | dash | dot | keyword | number => cases h

namespace Ending

variable {e : Ending}

/-- Nothing is noted as long as there are tokens to come. -/
theorem arrival_of_ne_nil {ts : List Token} (h : ts ≠ []) : e.arrival ts = [] := by
  cases ts with
  | nil => exact absurd rfl h
  | cons t ts => rfl

theorem arrival_of_openComment_eq_none (h : e.openComment = none) (ts : List Token) :
    e.arrival ts = [] := by
  cases ts with
  | nil => simp [arrival, h]
  | cons t ts => rfl

theorem arrival_append {us : List Token} (h : e.arrival us = []) (ts : List Token) :
    e.arrival (ts ++ us) = [] := by
  cases ts with
  | nil => exact h
  | cons t ts => rfl

end Ending

namespace Outline

variable {e : Ending} {entered : List Block} {b : Block}

@[simp] theorem items_nothing (ts : List Token) : (nothing ts).items = [] := rfl

@[simp] theorem items_behind (o : Outline) (items : List Item) :
    (o.behind items).items = items ++ o.items := rfl

theorem behind_behind (o : Outline) (as bs : List Item) :
    (o.behind bs).behind as = o.behind (as ++ bs) := by
  simp [behind]

/-! ## A declaration -/

theorem declaration_of_declares {w : Word} {d : Declaration} {ts : List Token}
    (h : b.Declares d (w.token :: ts)) (rest : List Token) :
    declaration e entered b w (ts ++ rest) = ⟨e.arrival rest ++ [.declared d], rest⟩ := by
  have hrun := (b.reads_reader w).takes h rest
  simp only [declaration, hrun]

/--
A declaration is read whole, or it is broken: then no declaration starts here, and the error stands
at the first token with which none could go on.
-/
theorem declaration_cases (e : Ending) (entered : List Block) (b : Block) (w : Word)
    (ts : List Token) :
    (∃ d us rest, b.Declares d (w.token :: us) ∧ ts = us ++ rest ∧
      declaration e entered b w ts = ⟨e.arrival rest ++ [.declared d], rest⟩) ∨
    ((∀ d us, b.Declares d (w.token :: us) → ¬ us <+: ts) ∧
      ∃ error pre rest, error.InDeclaration ∧ ts = pre ++ rest ∧ b.Begins (w.token :: pre) ∧
        (∀ t ∈ rest.head?, ¬ b.Begins (w.token :: (pre ++ [t]))) ∧
        declaration e entered b w ts = (report e entered error rest).behind (e.arrival rest)) := by
  cases hrun : b.reader w ts with
  | ok d rest =>
      obtain ⟨us, hd, rfl⟩ := (b.reads_reader w).taken hrun
      exact .inl ⟨d, us, rest, hd, rfl, declaration_of_declares hd rest⟩
  | error error rest =>
      obtain ⟨herror, pre, rfl, hbegins, hstop⟩ := (b.reads_reader w).stops hrun
      refine .inr ⟨?_, error, pre, rest, herror, rfl, hbegins, hstop, ?_⟩
      · intro d us hd hus
        obtain ⟨vs, hvs⟩ := hus
        rw [← hvs, (b.reads_reader w).takes hd vs] at hrun
        cases hrun
      · simp only [declaration, hrun]

/-! ## A block, by its first token -/

theorem body_nil : body e entered b [] = report e entered .noEnd [] := by
  rw [body]

theorem body_word (w : Word) (ts : List Token) :
    body e entered b (w.token :: ts) =
      (body e entered b (declaration e entered b w ts).rest).behind
        (declaration e entered b w ts).items := by
  rw [body]
  rfl

theorem body_end {t : Token} (h : t.lexeme = .keyword .endBlock) (ts : List Token) :
    body e entered b (t :: ts) = ⟨.closed b t :: e.arrival ts, ts⟩ := by
  obtain ⟨lexeme, pos⟩ := t
  cases h
  rw [body]

theorem body_keyword {t : Token} {k : Keyword} (h : t.lexeme = .keyword k) (hk : k ≠ .endBlock)
    (ts : List Token) : body e entered b (t :: ts) = report e entered .noEnd (t :: ts) := by
  obtain ⟨lexeme, pos⟩ := t
  cases h
  rw [body]
  cases k <;> first | rfl | exact absurd rfl hk

theorem body_semicolon {t : Token} (h : t.lexeme = .semicolon) (ts : List Token) :
    body e entered b (t :: ts) =
      (body e entered b ts).behind (.fault .extraSemicolon (.token t) :: e.arrival ts) := by
  obtain ⟨lexeme, pos⟩ := t
  cases h
  rw [body]

theorem body_stray {t : Token} (h : t.Stray) (ts : List Token) :
    body e entered b (t :: ts) =
      (body e entered b (report e entered b.strayError (t :: ts)).rest).behind
        (report e entered b.strayError (t :: ts)).items := by
  obtain ⟨lexeme, pos⟩ := t
  obtain ⟨hname, hcloses, hkeyword⟩ := h
  rw [body]
  cases lexeme with
  | name text => cases hname
  | keyword k => exact absurd rfl (hkeyword k)
  | semicolon => exact absurd (.inl rfl) hcloses
  | comma | equals | dash | dot | number => rfl

/-- The induction that follows the reading of a block. -/
@[elab_as_elim]
theorem body_cases (e : Ending) (entered : List Block) (b : Block) {motive : List Token → Prop}
    (nil : motive [])
    (word : ∀ w ts, motive (declaration e entered b w ts).rest → motive (w.token :: ts))
    (closed : ∀ t ts, t.lexeme = .keyword .endBlock → motive (t :: ts))
    (keyword : ∀ t ts k, t.lexeme = .keyword k → k ≠ .endBlock → motive (t :: ts))
    (semicolon : ∀ t ts, t.lexeme = .semicolon → motive ts → motive (t :: ts))
    (stray : ∀ t ts, t.Stray → motive (report e entered b.strayError (t :: ts)).rest →
      motive (t :: ts)) (ts : List Token) : motive ts := by
  induction ts using body.induct e entered b with
  | case1 => exact nil
  | case2 t ts text h _ ih =>
      have hname : t.name? = some text := by simp [Token.name?, h, Lexeme.name?]
      have heq : t = Word.token ⟨text, t.pos⟩ := Token.eq_word hname
      exact heq ▸ word ⟨text, t.pos⟩ ts ih
  | case3 t ts h => exact closed t ts h
  | case4 t ts k hk h => exact keyword t ts k h hk
  | case5 t ts h ih => exact semicolon t ts h ih
  | case6 t ts h _ ih | case7 t ts h _ ih | case8 t ts h _ ih | case9 t ts h _ ih
  | case10 t ts _ h _ ih =>
      have hname : t.name? = none := by simp [Token.name?, h, Lexeme.name?]
      exact stray t ts ⟨hname, by simp [Token.Closes, h], by simp [h]⟩ ih

/-! ## The blocks of a file -/

/-- Where a block was sought, its keyword is next or it is not. -/
theorem seek_cases (e : Ending) (entered : List Block) (b : Block) (ts : List Token) :
    (∃ t rest, (seek e entered b ts).rest = t :: rest ∧ t.lexeme = .keyword b.keyword) ∨
      ∀ t ∈ (seek e entered b ts).rest.head?, t.lexeme ≠ .keyword b.keyword := by
  cases (seek e entered b ts).rest with
  | nil => exact .inr (by simp)
  | cons t rest =>
      by_cases ht : t.lexeme = .keyword b.keyword
      · exact .inl ⟨t, rest, rfl, ht⟩
      · exact .inr (by simpa using ht)

theorem blocks_of_entered {bs : List Block} {ts rest : List Token} {t : Token}
    (hrest : (seek e entered b ts).rest = t :: rest) (ht : t.lexeme = .keyword b.keyword) :
    blocks e entered (b :: bs) ts =
      (blocks e (b :: entered) bs (body e (b :: entered) b rest).rest).behind
        ((seek e entered b ts).items ++ e.arrival rest ++
          .opened b :: (body e (b :: entered) b rest).items) := by
  simp only [blocks, hrest, ht, if_true]

theorem blocks_of_missing {bs : List Block} {ts : List Token}
    (h : ∀ t ∈ (seek e entered b ts).rest.head?, t.lexeme ≠ .keyword b.keyword) :
    blocks e entered (b :: bs) ts =
      (blocks e entered bs (seek e entered b ts).rest).behind (seek e entered b ts).items := by
  cases hrest : (seek e entered b ts).rest with
  | nil => simp only [blocks, hrest]
  | cons t rest =>
      have ht : t.lexeme ≠ .keyword b.keyword := h t (by simp [hrest])
      simp only [blocks, hrest, ht, if_false]

end Outline

end LogicNet
