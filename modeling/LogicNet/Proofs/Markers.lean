import LogicNet.Proofs.Ascent
import LogicNet.Proofs.Faults
import LogicNet.Proofs.Scanner
import Mathlib.Algebra.Ring.Parity

/-!
# Comment markers open and close in turn

Whether a character is inside a comment is settled by the number of markers before it, and by
nothing else: inside if it is odd. A reader of the text does not count. It passes over gaps, one
after every lexeme, and a marker may stand next to a name, to a number or to another marker. This
file finds the count behind that. What the reader has passed over holds an even number of markers
whenever it comes to a lexeme (`Scans.stands`), so no symbol starts behind an odd number of them.

The marker of a comment that is left open is a symbol of its own. There is one if the text has an
odd number of markers. It is the last marker, and it comes once, right before the end
(`markers_toggle`). A parse reports it once at most, and whatever it reports after that is about the
end of the text.
-/

namespace LogicNet

open Text

/-! ## Where symbols stand -/

namespace Text.Position

/-- The place behind a text comes before the place behind a longer one. -/
theorem behind_before (before : List Char) (c : Char) (cs : List Char) :
    (behind before).Before (behind (before ++ c :: cs)) := by
  induction cs generalizing before c with
  | nil =>
      rw [behind_concat]
      exact before_next _ _
  | cons d cs ih =>
      have hnext := before_next (behind before) c
      have hmore := ih (before ++ [c]) d
      rw [← behind_concat] at hnext
      rw [List.append_assoc] at hmore
      exact hnext.trans hmore

/-- What stands before a place of a text is settled by the place. -/
theorem behind_inj {as bs text : List Char} (has : as <+: text) (hbs : bs <+: text)
    (h : behind as = behind bs) : as = bs := by
  have hlonger : ∀ {xs ys : List Char}, xs <+: ys → behind xs = behind ys → xs = ys := by
    rintro xs _ ⟨zs, rfl⟩ heq
    cases zs with
    | nil => rw [List.append_nil]
    | cons z zs =>
        have hbefore := behind_before xs z zs
        rw [← heq] at hbefore
        exact absurd hbefore (Before.irrefl _)
  rcases List.prefix_or_prefix_of_prefix has hbs with hprefix | hprefix
  · exact hlonger hprefix h
  · exact (hlonger hprefix h.symm).symm

end Text.Position

/-- A symbol stands between the text `before` and the text `ahead`, which it starts. -/
inductive Symbol.Stands (before : List Char) : List Char → Symbol → Prop where
  | token {lexeme : Lexeme} {word rest : List Char} : lexeme.Written word →
      Stands before (word ++ rest) (.token ⟨lexeme, .behind before⟩)
  | openComment {inside : List Char} : commentMarker ∉ inside →
      Stands before (commentMarker :: inside) (.openComment (.behind before))
  | eof : Stands before [] (.eof (.behind before))

theorem Symbol.Stands.pos_eq {before ahead : List Char} {symbol : Symbol}
    (h : symbol.Stands before ahead) : symbol.pos = .behind before := by
  cases h <;> rfl

/-- A lexeme has no marker in it. -/
theorem Lexeme.Written.not_mem_marker {lexeme : Lexeme} {word : List Char}
    (h : lexeme.Written word) : commentMarker ∉ word := by
  have hpart : isNamePart commentMarker = false := by decide
  have hletter : isAlphabetic commentMarker = false := by decide
  have hdigit : commentMarker.isDigit = false := by decide
  rcases h.kinds with ⟨c, rfl, hmark⟩ | ⟨c, cs, rfl, hc, hcs, -⟩ | ⟨c, cs, rfl, hc, hcs, -⟩
  · rw [List.mem_singleton]
    rintro rfl
    cases hmark
  · rw [List.mem_cons]
    rintro (rfl | hmem)
    · rw [hletter] at hc
      cases hc
    · rw [hcs _ hmem] at hpart
      cases hpart
  · rw [List.mem_cons]
    rintro (rfl | hmem)
    · rw [hdigit] at hc
      cases hc
    · rw [hcs _ hmem] at hdigit
      cases hdigit

/-! ## Markers are counted in pairs -/

/-- The markers in a gap come in pairs. -/
theorem Gap.even_count {gap : List Char} (h : Gap gap) : Even (gap.count commentMarker) := by
  induction h with
  | nil => exact Even.zero
  | ignored hne _ _ ih => rwa [List.count_cons_of_ne hne]
  | comment hinside _ ih =>
      rw [List.count_cons_self, List.count_append, List.count_cons_self,
        List.count_eq_zero_of_not_mem hinside, Nat.zero_add, Nat.add_assoc]
      exact ih.add even_two

namespace Scans

variable {before gap word cs : List Char} {lexeme : Lexeme} {ts : List Token} {e : Ending}

theorem even_gap (hgap : Gap gap) (heven : Even (before.count commentMarker)) :
    Even ((before ++ gap).count commentMarker) := by
  rw [List.count_append]
  exact heven.add hgap.even_count

theorem even_word (hword : lexeme.Written word) (heven : Even (before.count commentMarker)) :
    Even ((before ++ word).count commentMarker) := by
  rwa [List.count_append, List.count_eq_zero_of_not_mem hword.not_mem_marker]

/-- **Each symbol starts behind an even number of markers**, the end of the text apart. -/
theorem stands (h : Scans before cs ts e) (heven : Even (before.count commentMarker)) :
    ∀ symbol ∈ e.symbolsFrom ts, ∃ b ahead, before ++ cs = b ++ ahead ∧ symbol.Stands b ahead ∧
      (Even (b.count commentMarker) ∨ ahead = []) := by
  induction h with
  | @ends before gap hgap =>
      intro symbol hsymbol
      obtain rfl := List.mem_singleton.mp hsymbol
      exact ⟨_, [], (List.append_nil _).symm, .eof, .inr rfl⟩
  | @endsInComment before gap inside hgap hinside =>
      intro symbol hsymbol
      rcases List.mem_cons.mp hsymbol with rfl | hsymbol
      · exact ⟨_, _, (List.append_assoc ..).symm, .openComment hinside, .inl (even_gap hgap heven)⟩
      · obtain rfl := List.mem_singleton.mp hsymbol
        exact ⟨_, [], (List.append_nil _).symm, .eof, .inr rfl⟩
  | @lexeme before gap word rest lexeme ts e hgap hword _ _ ih =>
      intro symbol hsymbol
      have hbefore := even_gap hgap heven
      rcases List.mem_cons.mp hsymbol with rfl | hsymbol
      · exact ⟨_, _, (List.append_assoc ..).symm, .token hword, .inl hbefore⟩
      · obtain ⟨b, ahead, htext, hstands⟩ := ih (even_word hword hbefore) symbol hsymbol
        refine ⟨b, ahead, ?_, hstands⟩
        rw [← htext]
        simp only [List.append_assoc]

/-- A comment is left open exactly if one marker is without its other. -/
theorem isSome_openComment (h : Scans before cs ts e)
    (heven : Even (before.count commentMarker)) :
    e.openComment.isSome = true ↔ Odd ((before ++ cs).count commentMarker) := by
  induction h with
  | ends hgap =>
      have hall := even_gap hgap heven
      refine ⟨fun hnone => ?_, fun hodd => absurd hall (Nat.not_even_iff_odd.mpr hodd)⟩
      cases hnone
  | endsInComment hgap hinside =>
      refine ⟨fun _ => ?_, fun _ => rfl⟩
      rw [← List.append_assoc, List.count_append, List.count_cons_self,
        List.count_eq_zero_of_not_mem hinside]
      exact (even_gap hgap heven).add_one
  | lexeme hgap hword _ _ ih =>
      rw [ih (even_word hword (even_gap hgap heven))]
      simp only [List.append_assoc]

end Scans

namespace TokenStream

variable {s : TokenStream} {text : String} {n : Nat}

theorem scans_ofText_nil (text : String) :
    Scans [] text.toList (ofText text).tokens (ofText text).ending :=
  scans_iff.mpr (behind_nil text)

/-- **What is at a place of the text is settled by the markers before it.** -/
theorem stands_ofText {symbol : Symbol} (h : symbol ∈ (ofText text).symbols) :
    ∃ before ahead, text.toList = before ++ ahead ∧ symbol.Stands before ahead ∧
      (Even (before.count commentMarker) ∨ ahead = []) :=
  (scans_ofText_nil text).stands Even.zero symbol h

/-- No symbol starts inside a comment. -/
theorem pos_ne_behind {before rest : List Char} {c : Char}
    (htext : text.toList = before ++ c :: rest) (hinside : Odd (before.count commentMarker))
    {symbol : Symbol} (h : symbol ∈ (ofText text).symbols) : symbol.pos ≠ .behind before := by
  intro hpos
  obtain ⟨b, ahead, hb, hstands, heven⟩ := stands_ofText h
  rw [hstands.pos_eq] at hpos
  obtain rfl : b = before := Position.behind_inj ⟨ahead, hb.symm⟩ ⟨c :: rest, htext.symm⟩ hpos
  rcases heven with heven | rfl
  · exact absurd heven (Nat.not_even_iff_odd.mpr hinside)
  · rw [hb] at htext
    simp at htext

/-- The comment left open starts at the last marker. -/
theorem exists_last_marker {p : Position} (h : (ofText text).ending.openComment = some p) :
    ∃ before inside, text.toList = before ++ commentMarker :: inside ∧ commentMarker ∉ inside ∧
      p = .behind before := by
  have hmem : Symbol.openComment p ∈ (ofText text).symbols := by
    simp [symbols, Ending.symbols, h]
  obtain ⟨before, ahead, htext, hstands, -⟩ := stands_ofText hmem
  cases hstands with
  | openComment hinside => exact ⟨before, _, htext, hinside, rfl⟩

/-- The place behind a text is the stop. -/
theorem stop_ofText (text : String) : (ofText text).ending.stop = .behind text.toList :=
  Position.after_behind [] text.toList

theorem mem_symbols_cases {symbol : Symbol} (h : symbol ∈ s.symbols) :
    (∃ t ∈ s.tokens, symbol = .token t) ∨
      (∃ p, s.ending.openComment = some p ∧ symbol = .openComment p) ∨
      symbol = .eof s.ending.stop := by
  rcases List.mem_append.mp h with h | h
  · obtain ⟨t, ht, rfl⟩ := List.mem_map.mp h
    exact .inl ⟨t, ht, rfl⟩
  · rcases List.mem_append.mp h with h | h
    · obtain ⟨p, hp, rfl⟩ := Option.map_eq_some_iff.mp (Option.mem_toList.mp h)
      exact .inr (.inl ⟨p, hp, rfl⟩)
    · exact .inr (.inr (List.mem_singleton.mp h))

/-- The comment left open stands behind all tokens. -/
theorem before_openComment (h : s.ending.Ordered s.tokens) {t : Token} (ht : t ∈ s.tokens)
    {p : Position} (hp : s.ending.openComment = some p) : t.pos.Before p := by
  have hordered : s.ending.Ordered (s.tokens ++ []) := (List.append_nil s.tokens).symm ▸ h
  have hmem : Symbol.openComment p ∈ s.ending.symbolsFrom [] := by
    simp [Ending.symbolsFrom, Ending.symbols, hp]
  exact hordered.before ht hmem

theorem symbolAt_mem (s : TokenStream) (n : Nat) : s.symbolAt n ∈ s.symbols := by
  rw [symbolAt, List.getD_eq_getElem?_getD]
  cases h : s.symbols[n]? with
  | some x => exact List.mem_of_getElem? h
  | none => simp [symbols, Ending.symbols]

/-- The tokens come first, then the comment left open, and then the end for ever. -/
theorem symbolAt_cases (s : TokenStream) (n : Nat) :
    (n < s.tokens.length ∧ ∃ t, s.symbolAt n = .token t) ∨
      (n = s.tokens.length ∧ ∃ p, s.ending.openComment = some p ∧
        s.symbolAt n = .openComment p) ∨
      (s.tokens.length ≤ n ∧ (s.ending.openComment.isSome = true → s.tokens.length < n) ∧
        s.symbolAt n = .eof s.ending.stop) := by
  rw [symbolAt, symbols, List.getD_eq_getElem?_getD]
  by_cases hn : n < s.tokens.length
  · refine .inl ⟨hn, s.tokens[n], ?_⟩
    rw [List.getElem?_append_left (by simpa using hn), List.getElem?_map,
      List.getElem?_eq_getElem hn]
    rfl
  · rw [List.getElem?_append_right (by simpa using hn), List.length_map]
    obtain ⟨m, rfl⟩ := Nat.exists_eq_add_of_le (Nat.le_of_not_lt hn)
    rw [Nat.add_sub_cancel_left]
    cases hopen : s.ending.openComment with
    | none =>
        refine .inr (.inr ⟨Nat.le_add_right _ _, by simp, ?_⟩)
        rw [Ending.symbols, hopen]
        cases m <;> rfl
    | some p =>
        rw [Ending.symbols, hopen]
        cases m with
        | zero => exact .inr (.inl ⟨rfl, p, rfl, rfl⟩)
        | succ m =>
            refine .inr (.inr ⟨Nat.le_add_right _ _, fun _ => by omega, ?_⟩)
            cases m <;> rfl

/-- The comment left open is found once, behind the tokens and before the end. -/
theorem symbolAt_eq_openComment_iff {p : Position} :
    s.symbolAt n = .openComment p ↔ n = s.tokens.length ∧ s.ending.openComment = some p := by
  constructor
  · intro h
    rcases s.symbolAt_cases n with ⟨-, t, ht⟩ | ⟨hn, q, hq, hsymbol⟩ | ⟨-, -, hend⟩
    · rw [h] at ht
      cases ht
    · rw [h] at hsymbol
      cases hsymbol
      exact ⟨hn, hq⟩
    · rw [h] at hend
      cases hend
  · rintro ⟨rfl, hopen⟩
    rcases s.symbolAt_cases s.tokens.length with ⟨hlt, -⟩ | ⟨-, q, hq, hsymbol⟩ | ⟨-, hlt, -⟩
    · exact absurd hlt (Nat.lt_irrefl _)
    · rw [hopen] at hq
      cases hq
      exact hsymbol
    · exact absurd (hlt (by rw [hopen]; rfl)) (Nat.lt_irrefl _)

end TokenStream

/-! ## An open comment is noted where it starts, and nothing else is -/

/-- If an item is a fault, it is noted at the marker of an open comment exactly if it says so. -/
def Item.Marked (item : Item) : Prop :=
  ∀ error symbol, item = .fault error symbol →
    (error = .unterminatedComment ↔ ∃ p, symbol = .openComment p)

namespace Outline

variable {e : Ending} {entered : List Block} {error : SyntaxError} {items : List Item}
  {ts : List Token} {o : Outline}

/-- All faults are noted as such. -/
def Marked (o : Outline) : Prop := ∀ item ∈ o.items, item.Marked

theorem marked_fault (h : error ≠ .unterminatedComment) (e : Ending) (ts : List Token) :
    (Item.fault error (e.current ts)).Marked := by
  rintro _ _ ⟨⟩
  refine ⟨fun heq => absurd heq h, ?_⟩
  rintro ⟨p, hp⟩
  cases ts <;> cases hp

theorem marked_arrival (e : Ending) (ts : List Token) : ∀ item ∈ e.arrival ts, item.Marked := by
  intro item hitem
  cases ts with
  | cons t ts => cases hitem
  | nil =>
      obtain ⟨p, -, rfl⟩ := Option.map_eq_some_iff.mp (Option.mem_toList.mp hitem)
      rintro _ _ ⟨⟩
      exact ⟨fun _ => ⟨p, rfl⟩, fun _ => rfl⟩

theorem marked_nothing (ts : List Token) : (nothing ts).Marked :=
  fun _ hitem => absurd hitem List.not_mem_nil

theorem Marked.behind (h : o.Marked) (hitems : ∀ item ∈ items, item.Marked) :
    (o.behind items).Marked := List.forall_mem_append.mpr ⟨hitems, h⟩

theorem Marked.behind_arrival (h : o.Marked) (ts : List Token) :
    (o.behind (e.arrival ts)).Marked := h.behind (marked_arrival e ts)

/-- One token is at fault and passed over. -/
theorem Marked.behind_passed (h : o.Marked) (herror : error ≠ .unterminatedComment) (t : Token)
    (ts : List Token) : (o.behind (.fault error (.token t) :: e.arrival ts)).Marked :=
  h.behind (List.forall_mem_cons.mpr ⟨marked_fault herror e (t :: ts), marked_arrival e ts⟩)

theorem marked_extraSemicolons (e : Ending) (ts : List Token) : (extraSemicolons e ts).Marked := by
  induction ts with
  | nil => exact marked_nothing []
  | cons t ts ih =>
      unfold extraSemicolons
      split
      · exact ih.behind_passed (by decide) t ts
      · exact marked_nothing _

theorem marked_recoverInBlock (e : Ending) (ts : List Token) : (recoverInBlock e ts).Marked := by
  induction ts with
  | nil => exact marked_nothing []
  | cons t ts ih =>
      unfold recoverInBlock
      split
      · exact marked_nothing _
      · exact (marked_extraSemicolons e ts).behind_arrival ts
      · exact ih.behind_arrival ts

theorem marked_recoverOutOfBlock (e : Ending) (entered : List Block) (ts : List Token) :
    (recoverOutOfBlock e entered ts).Marked := by
  induction ts with
  | nil => exact marked_nothing []
  | cons t ts ih =>
      unfold recoverOutOfBlock
      split
      · exact marked_nothing _
      · split
        · next b _ =>
          split
          · exact ih.behind_passed (by cases b <;> decide) t ts
          · exact marked_nothing _
        · exact ih.behind_arrival ts
      · exact ih.behind_arrival ts

theorem marked_report (e : Ending) (entered : List Block) (ts : List Token)
    (h : error ≠ .unterminatedComment) : (report e entered error ts).Marked := by
  have hpassed : ∀ item ∈ (if error.plan.advance then e.advance ts else nothing ts).items,
      item.Marked := by
    split
    · cases ts with
      | nil => exact marked_nothing []
      | cons t ts => exact marked_arrival e ts
    · exact marked_nothing ts
  refine Marked.behind ?_ (List.forall_mem_cons.mpr ⟨marked_fault h e ts, hpassed⟩)
  split
  · exact marked_nothing _
  · exact marked_recoverInBlock e _
  · exact marked_recoverOutOfBlock e entered _

theorem marked_declaration (e : Ending) (entered : List Block) (b : Block) (w : Word)
    (ts : List Token) : (declaration e entered b w ts).Marked := by
  rcases declaration_cases e entered b w ts with
    ⟨d, us, rest, -, -, hd⟩ | ⟨-, error, pre, rest, herror, -, -, -, hd⟩
  · rw [hd]
    refine List.forall_mem_append.mpr ⟨marked_arrival e rest, ?_⟩
    rintro _ hitem _ _ rfl
    cases List.mem_singleton.mp hitem
  · have hne : error ≠ .unterminatedComment := by
      rintro rfl
      exact absurd herror.2 (by decide)
    rw [hd]
    exact (marked_report e entered rest hne).behind_arrival rest

theorem marked_body (e : Ending) (entered : List Block) (b : Block) (ts : List Token) :
    (body e entered b ts).Marked := by
  induction ts using body_cases e entered b with
  | nil =>
      rw [body_nil]
      exact marked_report e entered [] (by decide)
  | word w ts ih =>
      rw [body_word]
      exact ih.behind (marked_declaration e entered b w ts)
  | closed t ts ht =>
      rw [body_end ht]
      refine List.forall_mem_cons.mpr ⟨?_, marked_arrival e ts⟩
      rintro _ _ ⟨⟩
  | keyword t ts k ht hk =>
      rw [body_keyword ht hk]
      exact marked_report e entered _ (by decide)
  | semicolon t ts ht ih =>
      rw [body_semicolon ht]
      exact ih.behind_passed (by decide) t ts
  | stray t ts ht ih =>
      rw [body_stray ht]
      exact ih.behind (marked_report e entered _ (by cases b <;> decide))

theorem marked_seek (e : Ending) (entered : List Block) (b : Block) (ts : List Token) :
    (seek e entered b ts).Marked := by
  unfold seek
  split
  · exact marked_nothing ts
  · exact marked_report e entered ts (by cases b <;> decide)

theorem marked_blocks (e : Ending) (entered : List Block) (bs : List Block) (ts : List Token) :
    (blocks e entered bs ts).Marked := by
  induction bs generalizing entered ts with
  | nil =>
      unfold blocks
      split
      · exact marked_nothing ts
      · exact marked_report e entered ts (by decide)
  | cons b bs ih =>
      rcases seek_cases e entered b ts with ⟨t, rest, hrest, ht⟩ | hmissing
      · rw [blocks_of_entered hrest ht]
        refine (ih _ _).behind (List.forall_mem_append.mpr ⟨List.forall_mem_append.mpr
          ⟨marked_seek e entered b ts, marked_arrival e rest⟩, List.forall_mem_cons.mpr ⟨?_,
          marked_body e (b :: entered) b rest⟩⟩)
        rintro _ _ ⟨⟩
      · rw [blocks_of_missing hmissing]
        exact (ih _ _).behind (marked_seek e entered b ts)

theorem marked_ofStream (s : TokenStream) : (ofStream s).Marked :=
  (marked_blocks s.ending [] Block.all s.tokens).behind_arrival s.tokens

end Outline

/-! ## What a parse reports about it -/

/-- A diagnostic is about an open comment exactly if it is made at the marker of one. -/
def Diagnostic.Marked (d : Diagnostic) : Prop :=
  d.kind = .syntactic .unterminatedComment ↔ ∃ p, d.anchor = .openComment p

namespace Progress

variable {β : Type} [NetworkBuilder β] {ids : String → NameId} {items : List Item} {item : Item}

theorem marked_step (h : item.Marked) (p : Progress β) :
    ∀ d ∈ Event.diagnostics (p.step ids item).1, d.Marked := by
  cases item with
  | opened b => exact fun d hd => absurd hd List.not_mem_nil
  | declared d =>
      rw [step]
      split
      · exact fun d hd => absurd hd List.not_mem_nil
      · rcases p.declare_cases ids d with
          ⟨-, hd⟩ | ⟨-, ⟨b, -, hd⟩ | ⟨b, kind, symbol, -, hblames, hd⟩⟩
        · rw [hd]
          exact fun d hd => absurd hd List.not_mem_nil
        · rw [hd]
          exact fun d hd => absurd hd List.not_mem_nil
        · rw [hd]
          intro d hd
          obtain rfl := List.mem_singleton.mp hd
          refine ⟨fun hkind => ?_, fun hanchor => ?_⟩
          · cases hblames <;> cases hkind
          · obtain ⟨q, hq⟩ := hanchor
            cases hblames <;> cases hq
  | closed b last =>
      rw [step]
      split
      · rw [check]
        split
        · exact fun d hd => absurd hd List.not_mem_nil
        · intro d hd
          obtain rfl := List.mem_singleton.mp hd
          refine ⟨fun hkind => ?_, fun hanchor => ?_⟩
          · cases hkind
          · obtain ⟨q, hq⟩ := hanchor
            cases hq
      · exact fun d hd => absurd hd List.not_mem_nil
  | fault error symbol =>
      intro d hd
      obtain rfl := List.mem_singleton.mp hd
      have hmarked := h error symbol rfl
      refine ⟨fun hkind => hmarked.mp ?_, fun hanchor => ?_⟩
      · cases hkind
        rfl
      · exact congrArg ErrorKind.syntactic (hmarked.mpr hanchor)

theorem marked_steps (h : ∀ item ∈ items, item.Marked) (p : Progress β) :
    ∀ d ∈ Event.diagnostics (p.steps ids items).1, d.Marked := by
  induction items generalizing p with
  | nil => exact fun d hd => absurd hd List.not_mem_nil
  | cons item items ih =>
      obtain ⟨hitem, hmore⟩ := List.forall_mem_cons.mp h
      rw [steps, Event.diagnostics_append]
      exact List.forall_mem_append.mpr ⟨marked_step hitem p, ih hmore _⟩

end Progress

theorem countP_le_one_of_pairwise {α : Type} {P : α → Bool} {xs : List α}
    (h : xs.Pairwise fun x y => P x = true → P y = false) : xs.countP P ≤ 1 := by
  induction xs with
  | nil => exact Nat.zero_le 1
  | cons x xs ih =>
      obtain ⟨hx, hxs⟩ := List.pairwise_cons.mp h
      rw [List.countP_cons]
      by_cases hP : P x = true
      · have hnone : xs.countP P = 0 :=
          List.countP_eq_zero.mpr fun y hy => by simp [hx y hy hP]
        rw [hnone, if_pos hP]
      · rw [if_neg hP]
        exact ih hxs

namespace Parsed

variable {β : Type} [NetworkBuilder β] (names : NameTable) (builder : β) (text : String)

theorem marked_diagnostics : ∀ d ∈ (parse names builder text).diagnostics, d.Marked :=
  Progress.marked_steps (Outline.marked_ofStream _) _

/-- An open comment is reported where the text leaves it open. -/
theorem openComment_of_reported {d : Diagnostic} (hd : d ∈ (parse names builder text).diagnostics)
    (hkind : d.kind = .syntactic .unterminatedComment) :
    ∃ p, d.anchor = .openComment p ∧ (TokenStream.ofText text).ending.openComment = some p := by
  obtain ⟨p, hp⟩ := (marked_diagnostics names builder text d hd).mp hkind
  obtain ⟨item, hitem, hanchor, -⟩ := Progress.diagnostics_steps _ _ d hd
  have hclimbs := TokenStream.climbs_ofStream (TokenStream.ordered_ofText text)
  refine ⟨p, hp, ?_⟩
  rcases TokenStream.mem_symbols_cases (hclimbs.within item hitem d.anchor hanchor).1 with
    ⟨t, -, ht⟩ | ⟨q, hq, hq'⟩ | hend
  · rw [hp] at ht
    cases ht
  · rw [hp] at hq'
    cases hq'
    exact hq
  · rw [hp] at hend
    cases hend

/-- What is reported behind a comment left open is about the end of the text. -/
theorem pairwise_openComment :
    (parse names builder text).diagnostics.Pairwise fun d later =>
      d.kind = .syntactic .unterminatedComment → later.anchor = .eof (.behind text.toList) := by
  have hordered := TokenStream.ordered_ofText text
  have hclimbs := TokenStream.climbs_ofStream hordered
  have hturns : (parse names builder text).diagnostics.Pairwise fun d d' => d.turn < d'.turn :=
    Progress.pairwise_turn_steps hclimbs.apart _
  refine hturns.imp_of_mem fun {d later} hd hlater hlt hkind => ?_
  obtain ⟨p, hp, hopen⟩ := openComment_of_reported names builder text hd hkind
  obtain ⟨item, hitem, hanchors, -⟩ := Progress.diagnostics_steps _ _ later hlater
  rw [Diagnostic.turn, Diagnostic.turn, Diagnostic.pos, Diagnostic.pos, hp] at hlt
  rcases TokenStream.mem_symbols_cases (hclimbs.within item hitem _ hanchors).1 with
    ⟨t, ht, hanchor⟩ | ⟨q, hq, hanchor⟩ | hend
  · -- a token stands before the open comment
    have hbefore := TokenStream.before_openComment hordered ht hopen
    rw [hanchor] at hlt
    rcases Position.turn_lt_iff.mp hlt with hafter | ⟨heq, -⟩
    · exact absurd hafter hbefore.asymm
    · have hsame : p = t.pos := heq
      rw [hsame] at hbefore
      exact absurd hbefore (Position.Before.irrefl _)
  · -- it was noted already
    have hkind' := (marked_diagnostics names builder text later hlater).mpr ⟨q, hanchor⟩
    rw [hopen] at hq
    cases hq
    rw [hanchor, hkind, hkind'] at hlt
    exact absurd hlt (lt_irrefl _)
  · rw [hend, TokenStream.stop_ofText]

end Parsed

/--
**Comment markers open and close in turn.** No symbol starts at a character with an odd number of
markers before it. A reader of the text finds an open comment exactly if the text has an odd number
of markers. It stands at the last marker, all symbols before it are tokens, and behind it there is
nothing but the end of the text. A parse reports it once at most, only then, and whatever is
reported after that is about the end of the text.
-/
theorem markers_toggle {β : Type} [NetworkBuilder β] (names : NameTable) (builder : β)
    (text : String) :
    let symbol := (Scanner.start names text).symbol
    let ds := (parse names builder text).diagnostics
    (∀ before c rest, text.toList = before ++ c :: rest → Odd (before.count commentMarker) →
        ∀ n, (symbol n).pos ≠ .behind before) ∧
      ((∃ n p, symbol n = .openComment p) ↔ Odd (text.toList.count commentMarker)) ∧
      (∀ n p, symbol n = .openComment p →
        (∃ before inside, text.toList = before ++ commentMarker :: inside ∧
          commentMarker ∉ inside ∧ p = .behind before) ∧
        (∀ m < n, ∃ t, symbol m = .token t) ∧
        ∀ m, n < m → symbol m = .eof (.behind text.toList)) ∧
      ds.countP (·.kind = .syntactic .unterminatedComment) ≤ 1 ∧
      (∀ d ∈ ds, d.kind = .syntactic .unterminatedComment →
        Odd (text.toList.count commentMarker)) ∧
      ds.Pairwise fun d later =>
        d.kind = .syntactic .unterminatedComment → later.anchor = .eof (.behind text.toList) := by
  intro symbol ds
  have hsymbol : ∀ n, symbol n = (TokenStream.ofText text).symbolAt n :=
    (Scanner.reads_start names text).symbol_eq
  have hodd := (TokenStream.scans_ofText_nil text).isSome_openComment Even.zero
  rw [List.nil_append] at hodd
  have hpairwise := Parsed.pairwise_openComment names builder text
  refine ⟨?_, ?_, ?_, ?_, ?_, hpairwise⟩
  · intro before c rest htext hinside n
    rw [hsymbol]
    exact TokenStream.pos_ne_behind htext hinside (TokenStream.symbolAt_mem _ n)
  · rw [← hodd, Option.isSome_iff_exists]
    simp only [hsymbol, TokenStream.symbolAt_eq_openComment_iff]
    exact ⟨fun ⟨_, p, _, hp⟩ => ⟨p, hp⟩, fun ⟨p, hp⟩ => ⟨_, p, rfl, hp⟩⟩
  · intro n p hn
    rw [hsymbol] at hn
    obtain ⟨rfl, hopen⟩ := TokenStream.symbolAt_eq_openComment_iff.mp hn
    refine ⟨TokenStream.exists_last_marker hopen, fun m hm => ?_, fun m hm => ?_⟩
    · rw [hsymbol]
      rcases TokenStream.symbolAt_cases (.ofText text) m with ⟨-, ht⟩ | ⟨heq, -⟩ | ⟨hle, -⟩
      · exact ht
      · omega
      · omega
    · rw [hsymbol, ← TokenStream.stop_ofText]
      rcases TokenStream.symbolAt_cases (.ofText text) m with ⟨hlt, -⟩ | ⟨heq, -⟩ | ⟨-, -, hend⟩
      · omega
      · omega
      · exact hend
  · refine countP_le_one_of_pairwise (hpairwise.imp_of_mem fun {d later} _ hlater hend hkind => ?_)
    rw [decide_eq_false_iff_not]
    intro hkind'
    obtain ⟨p, hp, -⟩ := Parsed.openComment_of_reported names builder text hlater hkind'
    rw [hend (of_decide_eq_true hkind)] at hp
    cases hp
  · intro d hd hkind
    obtain ⟨p, -, hopen⟩ := Parsed.openComment_of_reported names builder text hd hkind
    exact hodd.mp (Option.isSome_iff_exists.mpr ⟨p, hopen⟩)

end LogicNet
