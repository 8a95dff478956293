import LogicNet.Proofs.Accounts
import LogicNet.Proofs.Delivery
import LogicNet.Report
import Mathlib.Data.Prod.Lex

/-!
# Diagnostics come in source order

A refusal is reported at a word of the declaration, behind which the reader has long gone; an error
of form at the symbol that is next; and a comment that is left open by whoever comes to it. Still
all diagnostics come in the order of their places, and none is made twice.

Several errors can come together at one symbol. At the end of a text the end of a block may be
missed, and the blocks to come, and the end of the file. So an error has a rank, and a place and a
rank make a turn. Each part of the reader takes its turns from one place and rank on and up to
another (`Climbs`), the next part goes on from there, and in this way the outline of a text climbs
from its first symbol to its last (`TokenStream.climbs_ofStream`).

One pair of items is out of order: when a text ends in an open comment, that is noted before the
declaration that the reader has just finished, though its words stand before the comment. But then
building is blocked, and nothing comes of the declaration (`Item.Apart`).
-/

namespace LogicNet

open Text

/-! ## Turns -/

/-- A line, a column, and a rank among the errors at one place. -/
abbrev Turn := ℕ ×ₗ ℕ ×ₗ ℕ

/-- The turn of an error of the given rank. -/
def Text.Position.turn (p : Position) (rank : ℕ) : Turn := toLex (p.line, toLex (p.column, rank))

namespace Text.Position

theorem turn_lt_iff {p q : Position} {r r' : ℕ} :
    p.turn r < q.turn r' ↔ p.Before q ∨ p = q ∧ r < r' := by
  obtain ⟨line, column⟩ := p
  obtain ⟨line', column'⟩ := q
  simp only [turn, Prod.Lex.toLex_lt_toLex, Before, mk.injEq]
  omega

theorem turn_le_iff {p q : Position} {r r' : ℕ} :
    p.turn r ≤ q.turn r' ↔ p.Before q ∨ p = q ∧ r ≤ r' := by
  obtain ⟨line, column⟩ := p
  obtain ⟨line', column'⟩ := q
  simp only [turn, Prod.Lex.toLex_le_toLex, Before, mk.injEq]
  omega

end Text.Position

/--
Where an error of form comes among those at one symbol. What is wrong inside a block is noted before
the end of the block is missed, what is missed there before the blocks that are to come, each in its
turn, and a block that starts again only by a reader who looks for another.
-/
def SyntaxError.rank : SyntaxError → ℕ
  | extraSemicolon | unterminatedComment => 1
  | noNumber | noSemicolon | invalidDeviceName | noEquals | invalidDeviceType
  | invalidOutputLabel | noDot | noDash | invalidInputLabel => 1
  | noEnd | incompleteNetwork => 2
  | expectedDevices => 3
  | expectedConnections => 4
  | expectedMonitor => 5
  | noMainEnd => 6
  | extraDevices | extraConnections | extraMonitor => 7

theorem SyntaxError.InDeclaration.rank_eq {error : SyntaxError} (h : error.InDeclaration) :
    error.rank = 1 := by
  obtain ⟨-, hrecovery⟩ := h
  cases error <;> first | rfl | exact absurd hrecovery (by decide)

/-- Each block is missed at a rank of its own. -/
theorem rank_missingError {b : Block} {bs : List Block} (h : b :: bs <:+ Block.all) :
    b.missingError.rank = 5 - bs.length ∧ bs.length ≤ 2 := by
  rw [← List.mem_tails] at h
  simp only [Block.all, List.tails, List.mem_cons, List.cons.injEq] at h
  rcases h with ⟨rfl, rfl⟩ | ⟨rfl, rfl⟩ | ⟨rfl, rfl⟩ | h
  · decide
  · decide
  · decide
  · simp at h

/-- A refusal is blamed on a token of the declaration. -/
theorem Block.Declares.mem_of_blames {b : Block} {d : Declaration} {ts : List Token}
    (h : b.Declares d ts) {kind : ErrorKind} {symbol : Symbol} (hblames : d.Blames kind symbol) :
    ∃ t ∈ ts, symbol = .token t := by
  cases h <;> cases hblames <;> simp_all [Word.symbol, Numeral.symbol, Word.token, Numeral.token]

/-- Where an error comes among those at one symbol. What the network refuses comes first. -/
def ErrorKind.rank : ErrorKind → ℕ
  | syntactic e => e.rank
  | device _ | connection _ | monitor _ => 0

/-- All that the network refuses has one rank. -/
theorem Declaration.Blames.rank_eq {d : Declaration} {kind : ErrorKind} {symbol : Symbol}
    (h : d.Blames kind symbol) : kind.rank = 0 := by
  cases h <;> rfl

/-- The turn of a diagnostic. -/
def Diagnostic.turn (d : Diagnostic) : Turn := d.pos.turn d.kind.rank

namespace Item

/-- The symbols at which an item can lead to a diagnostic. -/
inductive Anchors : Item → Symbol → Prop
  | declared {d : Declaration} {kind : ErrorKind} {symbol : Symbol} :
      d.Blames kind symbol → Anchors (.declared d) symbol
  | closed {b : Block} {last : Token} : Anchors (.closed b last) (.token last)
  | fault {error : SyntaxError} {symbol : Symbol} : Anchors (.fault error symbol) symbol

/-- The rank of the diagnostics that an item can lead to. -/
def rank : Item → ℕ
  | .opened _ | .declared _ => 0
  | .closed _ _ => SyntaxError.incompleteNetwork.rank
  | .fault error _ => error.rank

/--
Whether diagnostics of two items come in the order of the items. A declaration behind a fault that
blocks building leads to none.
-/
def Apart (i j : Item) : Prop :=
  (∃ error symbol d, i = .fault error symbol ∧ error.blocksBuilding = true ∧ j = .declared d) ∨
    ∀ x y, i.Anchors x → j.Anchors y → x.pos.turn i.rank < y.pos.turn j.rank

end Item

/-! ## Items that climb -/

/-- Items whose diagnostics stand at symbols of a stream, in order, from a turn up to another. -/
structure Climbs (s : TokenStream) (low : Turn) (items : List Item) (high : Turn) : Prop where
  le : low ≤ high
  within : ∀ item ∈ items, ∀ x, item.Anchors x →
    x ∈ s.symbols ∧ low ≤ x.pos.turn item.rank ∧ x.pos.turn item.rank < high
  apart : items.Pairwise Item.Apart

namespace Climbs

variable {s : TokenStream} {a a' b b' c : Turn} {xs ys : List Item} {item : Item}

theorem nil (h : a ≤ b) : Climbs s a [] b := ⟨h, by simp, .nil⟩

theorem singleton (hle : a ≤ b)
    (h : ∀ x, item.Anchors x →
      x ∈ s.symbols ∧ a ≤ x.pos.turn item.rank ∧ x.pos.turn item.rank < b) :
    Climbs s a [item] b :=
  ⟨hle, by simpa using h, List.pairwise_singleton _ _⟩

theorem append (h : Climbs s a xs b) (h' : Climbs s b ys c) : Climbs s a (xs ++ ys) c where
  le := h.le.trans h'.le
  within := by
    intro item hitem x hx
    rcases List.mem_append.mp hitem with hitem | hitem
    · obtain ⟨hmem, hlow, hhigh⟩ := h.within item hitem x hx
      exact ⟨hmem, hlow, hhigh.trans_le h'.le⟩
    · obtain ⟨hmem, hlow, hhigh⟩ := h'.within item hitem x hx
      exact ⟨hmem, h.le.trans hlow, hhigh⟩
  apart := by
    refine List.pairwise_append.mpr ⟨h.apart, h'.apart, ?_⟩
    intro i hi j hj
    refine .inr fun x y hx hy => ?_
    exact (h.within i hi x hx).2.2.trans_le (h'.within j hj y hy).2.1

theorem mono (h : Climbs s a xs b) (hlow : a' ≤ a) (hhigh : b ≤ b') : Climbs s a' xs b' where
  le := hlow.trans (h.le.trans hhigh)
  within := by
    intro item hitem x hx
    obtain ⟨hmem, hfrom, hupto⟩ := h.within item hitem x hx
    exact ⟨hmem, hlow.trans hfrom, hupto.trans_le hhigh⟩
  apart := h.apart

end Climbs

namespace TokenStream

variable {s : TokenStream} {ts us rest : List Token} {t : Token} {r r' : ℕ}

/-- The turn of an error of the given rank at the symbol that is next. -/
def place (s : TokenStream) (ts : List Token) (rank : ℕ) : Turn :=
  (s.ending.current ts).pos.turn rank

theorem place_le_place (h : r ≤ r') : s.place ts r ≤ s.place ts r' :=
  Position.turn_le_iff.mpr (.inr ⟨rfl, h⟩)

theorem mem_symbols_of_suffix (h : ts <:+ s.tokens) {symbol : Symbol}
    (hsymbol : symbol ∈ s.ending.symbolsFrom ts) : symbol ∈ s.symbols := by
  obtain ⟨before, hbefore⟩ := h
  have hsymbols : s.symbols = s.ending.symbolsFrom s.tokens := rfl
  rw [hsymbols, ← hbefore, Ending.symbolsFrom_append]
  exact List.mem_append_right _ hsymbol

theorem current_mem_symbolsFrom (e : Ending) (ts : List Token) :
    e.current ts ∈ e.symbolsFrom ts := by
  cases ts <;> simp [Ending.current, Ending.symbolsFrom, Ending.symbols]

/-- A fault is noted at the symbol that is next. -/
theorem climbs_fault (h : ts <:+ s.tokens) {error : SyntaxError} (hlow : r ≤ error.rank)
    (hhigh : error.rank < r') :
    Climbs s (s.place ts r) [.fault error (s.ending.current ts)] (s.place ts r') := by
  refine .singleton (place_le_place (hlow.trans hhigh.le)) fun x hx => ?_
  cases hx
  exact ⟨mem_symbols_of_suffix h (current_mem_symbolsFrom _ ts), place_le_place hlow,
    Position.turn_lt_iff.mpr (.inr ⟨rfl, hhigh⟩)⟩

variable (hs : s.ending.Ordered s.tokens)

include hs

/-- Whatever is passed over comes before whatever is noted then. -/
theorem turn_lt_turn (h : ts ++ rest <:+ s.tokens) (ht : t ∈ ts) {symbol : Symbol}
    (hsymbol : symbol ∈ s.ending.symbolsFrom rest) : t.pos.turn r < symbol.pos.turn r' :=
  Position.turn_lt_iff.mpr (.inl ((hs.of_suffix h).before ht hsymbol))

/-- Behind the last token, the comment left open is noted. -/
theorem climbs_arrival_of_le (h : rest <:+ s.tokens) {low : Turn}
    (hlow : ∀ x ∈ s.ending.symbolsFrom rest, ∀ r, low ≤ x.pos.turn r) :
    Climbs s low (s.ending.arrival rest) (s.place rest 0) := by
  have hle : low ≤ s.place rest 0 := hlow _ (current_mem_symbolsFrom _ rest) 0
  cases rest with
  | cons u rest => exact .nil hle
  | nil =>
      cases hopen : s.ending.openComment with
      | none => simpa [Ending.arrival, hopen] using Climbs.nil hle
      | some q =>
          have hitems : s.ending.arrival [] = [.fault .unterminatedComment (.openComment q)] := by
            simp [Ending.arrival, hopen]
          have hmem : Symbol.openComment q ∈ s.ending.symbolsFrom [] := by
            simp [Ending.symbolsFrom, Ending.symbols, hopen]
          have hstop : q.Before s.ending.stop := by
            have hend := hs.of_suffix (List.nil_suffix (l := s.tokens))
            simpa [Ending.Ordered, Ending.symbolsFrom, Ending.symbols, hopen, Symbol.pos] using hend
          rw [hitems]
          refine .singleton hle fun x hx => ?_
          cases hx
          exact ⟨mem_symbols_of_suffix h hmem, hlow _ hmem _,
            Position.turn_lt_iff.mpr (.inl hstop)⟩

theorem climbs_arrival (ts : List Token) (h : t :: ts ++ rest <:+ s.tokens) :
    Climbs s (s.place (t :: ts ++ rest) r) (s.ending.arrival rest) (s.place rest 0) := by
  refine climbs_arrival_of_le hs ((List.suffix_append (t :: ts) rest).trans h) fun x hx r' => ?_
  exact (turn_lt_turn hs h (List.mem_cons_self ..) hx).le

/-- One token is passed over. -/
theorem climbs_pass (h : t :: ts <:+ s.tokens) :
    Climbs s (s.place (t :: ts) r) (s.ending.arrival ts) (s.place ts r') :=
  (climbs_arrival hs [] h).mono le_rfl (place_le_place (Nat.zero_le r'))

/-- A fault is noted at a token, and the token passed over. -/
theorem climbs_fault_pass (h : t :: ts <:+ s.tokens) {error : SyntaxError}
    (hlow : r ≤ error.rank) :
    Climbs s (s.place (t :: ts) r) (.fault error (.token t) :: s.ending.arrival ts)
      (s.place ts r') :=
  (climbs_fault h hlow (Nat.lt_succ_self error.rank)).append (climbs_pass hs h)

/-! ## Recovery climbs -/

theorem climbs_extraSemicolons (h : ts <:+ s.tokens) :
    Climbs s (s.place ts 0) (Outline.extraSemicolons s.ending ts).items
      (s.place (Outline.extraSemicolons s.ending ts).rest 0) := by
  induction ts with
  | nil => exact .nil le_rfl
  | cons t ts ih =>
      unfold Outline.extraSemicolons
      split
      · exact (climbs_fault_pass hs h (Nat.zero_le _)).append (ih ((List.suffix_cons t ts).trans h))
      · exact .nil le_rfl

/--
The rank from which errors go on where the reader of a block goes on. Only the end of the block and
the end of the text are met by a reader that has noted an error there.
-/
def resumeRank : List Token → ℕ
  | [] => 2
  | t :: _ => if t.lexeme = .keyword .endBlock then 2 else 0

theorem climbs_recoverInBlock (h : ts <:+ s.tokens) :
    Climbs s (s.place ts 2) (Outline.recoverInBlock s.ending ts).items
      (s.place (Outline.recoverInBlock s.ending ts).rest
        (resumeRank (Outline.recoverInBlock s.ending ts).rest)) := by
  induction ts with
  | nil => exact .nil le_rfl
  | cons t ts ih =>
      have hsuffix := (List.suffix_cons t ts).trans h
      unfold Outline.recoverInBlock
      split
      · next ht =>
        refine .nil (place_le_place ?_)
        simp [resumeRank, ht]
      · exact ((climbs_pass hs h).append (climbs_extraSemicolons hs hsuffix)).mono le_rfl
          (place_le_place (Nat.zero_le _))
      · exact (climbs_pass hs h).append (ih hsuffix)

theorem climbs_recoverOutOfBlock (h : ts <:+ s.tokens) (entered : List Block) (hr : r ≤ 7) :
    Climbs s (s.place ts r) (Outline.recoverOutOfBlock s.ending entered ts).items
      (s.place (Outline.recoverOutOfBlock s.ending entered ts).rest r) := by
  induction ts with
  | nil => exact .nil le_rfl
  | cons t ts ih =>
      have hsuffix := (List.suffix_cons t ts).trans h
      unfold Outline.recoverOutOfBlock
      split
      · exact .nil le_rfl
      · split
        · next b _ =>
          split
          · have hrank : r ≤ b.duplicateError.rank := by cases b <;> exact hr
            exact (climbs_fault_pass hs h hrank).append (ih hsuffix)
          · exact .nil le_rfl
        · exact (climbs_pass hs h).append (ih hsuffix)
      · exact (climbs_pass hs h).append (ih hsuffix)

/-- An error inside a declaration is noted, and the block is read on. -/
theorem climbs_report (h : ts <:+ s.tokens) (entered : List Block) {error : SyntaxError}
    (herror : error.InDeclaration) (hr : r ≤ 1) :
    Climbs s (s.place ts r) (Outline.report s.ending entered error ts).items
      (s.place (Outline.report s.ending entered error ts).rest
        (resumeRank (Outline.report s.ending entered error ts).rest)) := by
  have hrank : error.rank = 1 := herror.rank_eq
  rw [Outline.report_of_inDeclaration herror]
  exact (climbs_fault h (hr.trans_eq hrank.symm) (hrank.trans_lt (by decide))).append
    (climbs_recoverInBlock hs h)

/-! ## Reading climbs -/

/-- A declaration is found behind its words, unless a comment that is left open comes between. -/
theorem climbs_declared {b : Block} {w : Word} {d : Declaration}
    (hd : b.Declares d (w.token :: ts)) (h : w.token :: ts ++ rest <:+ s.tokens) :
    Climbs s (s.place (w.token :: ts ++ rest) 0) (s.ending.arrival rest ++ [.declared d])
      (s.place rest 0) := by
  have harrival := climbs_arrival hs ts (r := 0) h
  have hdeclared : Climbs s (s.place (w.token :: ts ++ rest) 0) [.declared d]
      (s.place rest 0) := by
    refine .singleton harrival.le fun x hx => ?_
    cases hx with
    | declared hblames =>
        obtain ⟨t, ht, rfl⟩ := hd.mem_of_blames hblames
        -- the builder may blame any word of the declaration, the first among them
        refine ⟨mem_symbols_of_suffix h ?_, ?_, ?_⟩
        · exact List.mem_append_left _ (List.mem_map_of_mem (List.mem_append_left rest ht))
        · rcases List.mem_cons.mp ht with rfl | ht
          · exact le_rfl
          · have hfirst : [w.token] ++ (ts ++ rest) <:+ s.tokens := h
            refine (turn_lt_turn hs hfirst (List.mem_singleton_self _) ?_).le
            exact List.mem_append_left _ (List.mem_map_of_mem (List.mem_append_left rest ht))
        · exact turn_lt_turn hs h ht (current_mem_symbolsFrom _ rest)
  refine ⟨harrival.le, ?_, List.pairwise_append.mpr ⟨harrival.apart, hdeclared.apart, ?_⟩⟩
  · intro item hitem
    rcases List.mem_append.mp hitem with hitem | hitem
    · exact harrival.within item hitem
    · exact hdeclared.within item hitem
  · -- the comment stands behind the words, but then nothing is built any more
    intro i hi j hj
    cases rest with
    | cons t rest => exact absurd hi List.not_mem_nil
    | nil =>
        obtain ⟨p, -, rfl⟩ := Option.map_eq_some_iff.mp (Option.mem_toList.mp hi)
        exact .inl ⟨_, _, d, rfl, rfl, List.mem_singleton.mp hj⟩

theorem climbs_declaration (entered : List Block) (b : Block) {w : Word}
    (h : w.token :: ts <:+ s.tokens) :
    Climbs s (s.place (w.token :: ts) 0) (Outline.declaration s.ending entered b w ts).items
      (s.place (Outline.declaration s.ending entered b w ts).rest
        (resumeRank (Outline.declaration s.ending entered b w ts).rest)) := by
  rcases Outline.declaration_cases s.ending entered b w ts with
    ⟨d, us, rest, hd, rfl, hread⟩ | ⟨-, error, pre, rest, herror, rfl, -, -, hread⟩
  · rw [hread]
    exact (climbs_declared hs hd h).mono le_rfl (place_le_place (Nat.zero_le _))
  · have hrest : rest <:+ s.tokens := (List.suffix_append (w.token :: pre) rest).trans h
    rw [hread, Outline.items_behind, Outline.rest_behind]
    exact (climbs_arrival hs pre h).append
      (climbs_report hs hrest entered herror (Nat.zero_le 1))

/-- The end of a block is found, and the open inputs with it. -/
theorem climbs_closed (h : t :: ts <:+ s.tokens) (b : Block) :
    Climbs s (s.place (t :: ts) 2) (.closed b t :: s.ending.arrival ts) (s.place ts r) := by
  have hclosed : Climbs s (s.place (t :: ts) 2) [.closed b t] (s.place (t :: ts) 3) := by
    refine .singleton (place_le_place (by decide)) fun x hx => ?_
    cases hx
    exact ⟨mem_symbols_of_suffix h (current_mem_symbolsFrom _ (t :: ts)), le_rfl,
      Position.turn_lt_iff.mpr (.inr ⟨rfl, Nat.lt_succ_self 2⟩)⟩
  exact hclosed.append (climbs_pass hs h)

theorem climbs_body (h : ts <:+ s.tokens) (entered : List Block) (b : Block) :
    Climbs s (s.place ts (resumeRank ts)) (Outline.body s.ending entered b ts).items
      (s.place (Outline.body s.ending entered b ts).rest 3) := by
  induction ts using Outline.body_cases s.ending entered b with
  | nil =>
      rw [Outline.body_nil]
      exact climbs_fault h (r := 2) le_rfl (by decide)
  | word w ts ih =>
      have hrest := (Outline.rest_declaration_suffix s.ending entered b w ts).trans
        ((List.suffix_cons w.token ts).trans h)
      rw [Outline.body_word]
      exact (climbs_declaration hs entered b h).append (ih hrest)
  | closed t ts ht =>
      have hrank : resumeRank (t :: ts) = 2 := by simp [resumeRank, ht]
      rw [Outline.body_end ht, hrank]
      exact climbs_closed hs h b
  | keyword t ts k ht hk =>
      have hrank : resumeRank (t :: ts) = 0 := by simp [resumeRank, ht, hk]
      rw [Outline.body_keyword ht hk, hrank]
      exact climbs_fault h (Nat.zero_le _) (by decide)
  | semicolon t ts ht ih =>
      have hrank : resumeRank (t :: ts) = 0 := by simp [resumeRank, ht]
      rw [Outline.body_semicolon ht, hrank]
      exact (climbs_fault_pass hs h (Nat.zero_le _)).append (ih ((List.suffix_cons t ts).trans h))
  | stray t ts ht ih =>
      have hrank : resumeRank (t :: ts) = 0 := by simp [resumeRank, ht.2.2]
      have hrest := (Outline.rest_report_suffix s.ending entered b.strayError (t :: ts)).trans h
      rw [Outline.body_stray ht, hrank]
      exact (climbs_report hs h entered b.strayError_inDeclaration (Nat.zero_le 1)).append
        (ih hrest)

theorem climbs_seek (h : ts <:+ s.tokens) (entered : List Block) (b : Block) :
    Climbs s (s.place ts b.missingError.rank) (Outline.seek s.ending entered b ts).items
      (s.place (Outline.seek s.ending entered b ts).rest (b.missingError.rank + 1)) := by
  unfold Outline.seek
  split
  · exact .nil (place_le_place (Nat.le_succ _))
  · have hreport : Outline.report s.ending entered b.missingError ts =
        (Outline.recoverOutOfBlock s.ending entered ts).behind
          [.fault b.missingError (s.ending.current ts)] := by
      cases b <;> rfl
    have hrank : b.missingError.rank + 1 ≤ 7 := by cases b <;> decide
    rw [hreport]
    exact (climbs_fault h le_rfl (Nat.lt_succ_self _)).append
      (climbs_recoverOutOfBlock hs h entered hrank)

/-- The blocks that are still to come are missed in their turn. -/
theorem climbs_blocks (h : ts <:+ s.tokens) (entered : List Block) {bs : List Block}
    (hbs : bs <:+ Block.all) :
    Climbs s (s.place ts (6 - bs.length)) (Outline.blocks s.ending entered bs ts).items
      (s.place (Outline.blocks s.ending entered bs ts).rest 7) := by
  induction bs generalizing entered ts with
  | nil =>
      rw [Outline.blocks]
      split
      · exact .nil (place_le_place (by decide))
      · exact (climbs_fault h (r := 6) le_rfl (Nat.lt_succ_self _)).append
          (climbs_recoverOutOfBlock hs h entered le_rfl)
  | cons b bs ih =>
      have hrank : b.missingError.rank = 5 - bs.length ∧ bs.length ≤ 2 := rank_missingError hbs
      have hmore := (List.suffix_cons b bs).trans hbs
      have hsought := climbs_seek hs h entered b
      have hsuffix : (Outline.seek s.ending entered b ts).rest <:+ s.tokens :=
        (Outline.notes_seek s.ending entered b ts).suffix.trans h
      rw [List.length_cons, show 6 - (bs.length + 1) = b.missingError.rank by omega]
      rw [show b.missingError.rank + 1 = 6 - bs.length by omega] at hsought
      rcases Outline.seek_cases s.ending entered b ts with ⟨t, rest, hrest, ht⟩ | hmissing
      · rw [hrest] at hsought hsuffix
        have hrestSuffix := (List.suffix_cons t rest).trans hsuffix
        have hbody := climbs_body hs hrestSuffix (b :: entered) b
        have hbodySuffix :=
          (Outline.accounts_body (b :: entered) b hs hrestSuffix).suffix.trans hrestSuffix
        have hopened : Climbs s (s.place rest (resumeRank rest)) [.opened b]
            (s.place rest (resumeRank rest)) := .singleton le_rfl fun x hx => by cases hx
        -- whatever was missed in the block, the next block is missed later
        have hbodyMore := hbody.mono le_rfl (place_le_place (show 3 ≤ 6 - bs.length by omega))
        rw [Outline.blocks_of_entered hrest ht, Outline.items_behind, List.append_assoc,
          List.append_assoc]
        exact hsought.append ((climbs_pass hs hsuffix).append
          ((hopened.append hbodyMore).append (ih hbodySuffix (b :: entered) hmore)))
      · rw [Outline.blocks_of_missing hmissing]
        exact hsought.append (ih hsuffix entered hmore)

/-- **What is found in a text climbs.** -/
theorem climbs_ofStream :
    Climbs s (Position.turn ⟨0, 0⟩ 0) (Outline.ofStream s).items
      (s.place (Outline.ofStream s).rest 7) := by
  have hleast : ∀ x ∈ s.ending.symbolsFrom s.tokens, ∀ r,
      Position.turn ⟨0, 0⟩ 0 ≤ x.pos.turn r := by
    intro x _ r
    obtain ⟨line, column⟩ := x.pos
    simp only [Position.turn_le_iff, Position.Before, Position.mk.injEq]
    omega
  have hstart := climbs_arrival_of_le hs (List.suffix_refl _) hleast
  have hblocks := climbs_blocks hs (List.suffix_refl _) [] (List.suffix_refl Block.all)
  exact (hstart.mono le_rfl (place_le_place (Nat.zero_le _))).append hblocks

end TokenStream

/-! ## Diagnostics climb -/

namespace Progress

variable {β : Type} [NetworkBuilder β] {ids : String → NameId} {items : List Item}

theorem blocked_step {p : Progress β} (h : p.blocked = true) (item : Item) :
    (p.step ids item).2.blocked = true := by
  cases item with
  | opened b => exact h
  | declared d => rw [step, if_pos h]; exact h
  | closed b last => exact (step_closed p ids b last).2.2.trans h
  | fault error symbol => simp [step, note, h]

/-- An item leads to one diagnostic at most, and a declaration to none once building is blocked. -/
theorem diagnostics_step (ids : String → NameId) (p : Progress β) (item : Item) :
    Event.diagnostics (p.step ids item).1 = [] ∨
      ∃ d, Event.diagnostics (p.step ids item).1 = [d] ∧ item.Anchors d.anchor ∧
        d.kind.rank = item.rank ∧ (p.blocked = true → ∀ x, item ≠ .declared x) := by
  cases item with
  | opened b => exact .inl rfl
  | declared d =>
      rw [step]
      split
      · exact .inl rfl
      · next hopen =>
        rcases p.declare_cases ids d with
          ⟨-, hd⟩ | ⟨-, ⟨b, -, hd⟩ | ⟨b, kind, symbol, -, hblames, hd⟩⟩
        · rw [hd]
          exact .inl rfl
        · rw [hd]
          exact .inl rfl
        · rw [hd]
          exact .inr ⟨⟨kind, symbol⟩, rfl, .declared hblames, hblames.rank_eq,
            fun hblocked => absurd hblocked hopen⟩
  | closed b last =>
      simp only [step, check]
      split
      · split
        · exact .inl rfl
        · exact .inr ⟨_, rfl, .closed, rfl, by simp⟩
      · exact .inl rfl
  | fault error symbol => exact .inr ⟨_, rfl, .fault, rfl, by simp⟩

theorem diagnostics_steps (p : Progress β) (items : List Item) :
    ∀ d ∈ Event.diagnostics (p.steps ids items).1, ∃ item ∈ items, item.Anchors d.anchor ∧
      d.kind.rank = item.rank ∧ (p.blocked = true → ∀ x, item ≠ .declared x) := by
  induction items generalizing p with
  | nil => exact fun d hd => absurd hd List.not_mem_nil
  | cons item items ih =>
      intro d hd
      rw [steps, Event.diagnostics_append] at hd
      rcases List.mem_append.mp hd with hd | hd
      · rcases p.diagnostics_step ids item with hnone | ⟨d', hone, hd'⟩
        · rw [hnone] at hd
          exact absurd hd List.not_mem_nil
        · rw [hone, List.mem_singleton] at hd
          exact ⟨item, List.mem_cons_self .., hd ▸ hd'⟩
      · obtain ⟨j, hj, hanchor, hrank, hopen⟩ := ih _ d hd
        exact ⟨j, List.mem_cons_of_mem item hj, hanchor, hrank,
          fun hblocked => hopen (blocked_step hblocked item)⟩

/-- **Items that are apart lead to diagnostics that climb.** -/
theorem pairwise_turn_steps (h : items.Pairwise Item.Apart) (p : Progress β) :
    (Event.diagnostics (p.steps ids items).1).Pairwise fun d d' => d.turn < d'.turn := by
  induction items generalizing p with
  | nil => exact .nil
  | cons item items ih =>
      obtain ⟨hapart, hmore⟩ := List.pairwise_cons.mp h
      rw [steps, Event.diagnostics_append]
      rcases p.diagnostics_step ids item with hnone | ⟨d, hone, hanchor, hrank, -⟩
      · rw [hnone]
        exact ih hmore _
      · rw [hone]
        refine List.pairwise_cons.mpr ⟨fun d' hd' => ?_, ih hmore _⟩
        obtain ⟨j, hj, hanchor', hrank', hopen⟩ := diagnostics_steps _ items d' hd'
        rcases hapart j hj with ⟨error, symbol, x, rfl, hblocks, rfl⟩ | hlt
        · -- the fault has blocked building
          exact absurd rfl (hopen (by simp [step, note, ErrorKind.blocksBuilding, hblocks]) x)
        · have hturn := hlt _ _ hanchor hanchor'
          rwa [← hrank, ← hrank'] at hturn

end Progress

/--
**Diagnostics come in source order and are never repeated.** Whatever the builder answers and
however the diagnostics are shown, they stand one behind the other, no two of a kind at one place,
and each at a symbol of the text.
-/
theorem parseTo_ascending {β σ : Type} [NetworkBuilder β] [Sink σ] (names : NameTable)
    (builder : β) (text : String) (locations : Bool) (sink : σ) :
    let ds := (parseTo names builder text locations sink).parsed.diagnostics
    ds.Pairwise (fun d d' => d.pos.Before d'.pos ∨ d.pos = d'.pos) ∧
      (ds.map fun d => (d.kind, d.pos)).Nodup ∧
      ∀ d ∈ ds, d.anchor ∈ (TokenStream.ofText text).symbols := by
  intro ds
  have hclimbs := TokenStream.climbs_ofStream (TokenStream.ordered_ofText text)
  have hturns : ds.Pairwise fun d d' => d.turn < d'.turn :=
    Progress.pairwise_turn_steps hclimbs.apart _
  refine ⟨?_, ?_, ?_⟩
  · refine hturns.imp fun {d d'} hlt => ?_
    exact (Position.turn_lt_iff.mp hlt).imp id And.left
  · rw [List.Nodup, List.pairwise_map]
    refine hturns.imp fun {d d'} hlt heq => ?_
    obtain ⟨hkind, hpos⟩ := Prod.mk.inj heq
    exact absurd hlt (by simp [Diagnostic.turn, hkind, hpos])
  · intro d hd
    obtain ⟨item, hitem, hanchor, -⟩ := Progress.diagnostics_steps _ _ d hd
    exact (hclimbs.within item hitem d.anchor hanchor).1

end LogicNet
