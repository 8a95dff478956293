import LogicNet.Outline.File
import Mathlib.Data.List.Pairwise

/-!
# Where faults are noted

The symbols of a text stand in reading order: each token before the next, all of them before the
comment that is left open, if there is one, and everything before the end. So the place of a symbol
tells when a reader met it, and places can stand in for the course of reading.

A reader that looks for its way after a fault notes nothing but faults, each at a symbol that it
passes or at the one before which it stops. `Outline.Notes` says so of all the kinds of recovery.
-/

namespace LogicNet

open Text

/-! ## The order of the symbols -/

namespace Text

/-- The characters of a text stand one after the other, and the text ends behind the last. -/
theorem pairwise_pos_place (p : Position) (cs : List Char) :
    ((place p cs).map Placed.pos ++ [p.after cs]).Pairwise Position.Before ∧
      ∀ q ∈ (place p cs).map Placed.pos ++ [p.after cs], p = q ∨ p.Before q := by
  induction cs generalizing p with
  | nil => simp [place]
  | cons c cs ih =>
      obtain ⟨hpairwise, hstart⟩ := ih (p.next c)
      have hafter : ∀ q ∈ (place (p.next c) cs).map Placed.pos ++ [(p.next c).after cs],
          p.Before q := by
        intro q hq
        rcases hstart q hq with rfl | hnext
        · exact p.before_next c
        · exact (p.before_next c).trans hnext
      simp only [place, List.map_cons, Position.after_cons, List.cons_append]
      refine ⟨List.pairwise_cons.mpr ⟨hafter, hpairwise⟩, ?_⟩
      intro q hq
      rcases List.mem_cons.mp hq with rfl | hq
      · exact .inl rfl
      · exact .inr (hafter q hq)

theorem Position.Before.irrefl (p : Position) : ¬ p.Before p := by
  unfold Before
  omega

theorem Position.Before.asymm {p q : Position} (h : p.Before q) : ¬ q.Before p :=
  fun h' => irrefl p (h.trans h')

end Text

/-- The characters that are no comment markers. -/
def unmarked (cs : List Placed) : List Placed := cs.filter fun c => c.char != commentMarker

theorem unmarked_cons_of_ne {c : Placed} (h : c.char ≠ commentMarker) (cs : List Placed) :
    unmarked (c :: cs) = c :: unmarked cs := by
  simp [unmarked, h]

theorem unmarked_sublist_of_sublist {as bs : List Placed} (h : as.Sublist bs) :
    (unmarked as).Sublist (unmarked bs) := h.filter _

/-- Each token stands where a character stands, and at no comment marker. -/
theorem pos_tokensOf_sublist (cs : List Placed) :
    ((tokensOf cs).map Token.pos).Sublist ((unmarked cs).map Placed.pos) := by
  fun_induction tokensOf cs with
  | case1 => exact .slnil
  | case2 c cs mark hmark ih =>
      have hc : c.char ≠ commentMarker := by
        intro heq
        have hnone : mark? commentMarker = none := by decide
        rw [heq, hnone] at hmark
        cases hmark
      rw [unmarked_cons_of_ne hc]
      exact ih.cons_cons _
  | case3 c cs hmark halpha word ih =>
      have hc : c.char ≠ commentMarker := by
        intro heq
        rw [heq] at halpha
        exact absurd halpha (by decide)
      rw [unmarked_cons_of_ne hc]
      exact (ih.trans ((unmarked_sublist_of_sublist (List.dropWhile_sublist _)).map _)).cons_cons _
  | case4 c cs hmark halpha hdigit digits ih =>
      have hc : c.char ≠ commentMarker := by
        intro heq
        rw [heq] at hdigit
        exact absurd hdigit (by decide)
      rw [unmarked_cons_of_ne hc]
      exact (ih.trans ((unmarked_sublist_of_sublist (List.dropWhile_sublist _)).map _)).cons_cons _
  | case5 c cs hmark halpha hdigit ih =>
      exact ih.trans ((unmarked_sublist_of_sublist (List.sublist_cons_self c cs)).map _)

/-- A comment that is left open starts at one of its markers. -/
theorem openComment?_eq_some {opened : Option Position} {cs : List Placed} {q : Position}
    (h : openComment? opened cs = some q) : opened = some q ∨ q ∈ cs.map Placed.pos := by
  induction cs generalizing opened with
  | nil => exact .inl h
  | cons c cs ih =>
      rw [openComment?] at h
      have hmore : q ∈ cs.map Placed.pos → q ∈ (c :: cs).map Placed.pos := List.mem_cons_of_mem _
      split at h
      · rcases ih h with heq | hq
        · split at heq
          · exact absurd heq (by simp)
          · exact .inr (by simp [Option.some.inj heq])
        · exact .inr (hmore hq)
      · exact (ih h).imp id hmore

/-- What stands outside the comments stands before a comment that is left open. -/
theorem before_openComment {opened : Option Position} {cs : List Placed} {q : Position}
    (hcs : (cs.map Placed.pos).Pairwise Position.Before) (h : openComment? opened cs = some q)
    {c : Placed} (hc : c ∈ unmarked (outsideComments opened.isSome cs)) : c.pos.Before q := by
  induction cs generalizing opened with
  | nil => exact absurd hc (by simp [unmarked, outsideComments])
  | cons d cs ih =>
      obtain ⟨hd, hcs⟩ := List.pairwise_cons.mp hcs
      rw [openComment?] at h
      rw [outsideComments] at hc
      by_cases hmarker : d.char = commentMarker
      · -- a marker opens a comment or closes one
        rw [if_pos hmarker] at h hc
        rw [unmarked, List.filter_cons_of_neg (by simp [hmarker])] at hc
        cases opened with
        | none => exact ih hcs h hc
        | some p => exact ih hcs h hc
      · rw [if_neg hmarker] at h hc
        cases opened with
        | none =>
            rw [Option.isSome_none, if_neg (by simp), unmarked_cons_of_ne hmarker] at hc
            rcases List.mem_cons.mp hc with rfl | hc
            · rcases openComment?_eq_some h with heq | hq
              · exact absurd heq (by simp)
              · exact hd q hq
            · exact ih hcs h hc
        | some p => exact ih hcs h hc

namespace Ending

/-- The symbols that a reader with the tokens `ts` to go will find. -/
def symbolsFrom (e : Ending) (ts : List Token) : List Symbol := ts.map .token ++ e.symbols

/-- The symbols that a reader will find stand in reading order. -/
def Ordered (e : Ending) (ts : List Token) : Prop :=
  ((e.symbolsFrom ts).map Symbol.pos).Pairwise Position.Before

theorem symbolsFrom_append (e : Ending) (ts us : List Token) :
    e.symbolsFrom (ts ++ us) = ts.map .token ++ e.symbolsFrom us := by
  simp [symbolsFrom]

theorem Ordered.of_suffix {e : Ending} {ts us : List Token} (h : e.Ordered ts) (hus : us <:+ ts) :
    e.Ordered us := by
  obtain ⟨before, rfl⟩ := hus
  rw [Ordered, symbolsFrom_append, List.map_append] at h
  exact (List.pairwise_append.mp h).2.1

/-- A token stands before every symbol behind it. -/
theorem Ordered.before {e : Ending} {ts us : List Token} (h : e.Ordered (ts ++ us)) {t : Token}
    (ht : t ∈ ts) {symbol : Symbol} (hsymbol : symbol ∈ e.symbolsFrom us) :
    t.pos.Before symbol.pos := by
  rw [Ordered, symbolsFrom_append, List.map_append] at h
  exact (List.pairwise_append.mp h).2.2 _ (List.mem_map_of_mem (List.mem_map_of_mem ht)) _
    (List.mem_map_of_mem hsymbol)

end Ending

/-- **The symbols of a text stand in reading order.** -/
theorem TokenStream.ordered_ofText (text : String) :
    (TokenStream.ofText text).ending.Ordered (TokenStream.ofText text).tokens := by
  obtain ⟨hplaced, -⟩ := pairwise_pos_place .start text.toList
  obtain ⟨hpairwise, -, hstop⟩ := List.pairwise_append.mp hplaced
  simp only [List.mem_singleton, forall_eq] at hstop
  have hsublist : ((tokensOf (outsideComments false (place .start text.toList))).map
      Token.pos).Sublist ((place .start text.toList).map Placed.pos) :=
    (pos_tokensOf_sublist _).trans
      (((List.filter_sublist).trans (outsideComments_sublist _ _)).map _)
  have hends : ((ofText text).ending.symbols.map Symbol.pos) =
      (openComment? none (place .start text.toList)).toList ++
        [Position.start.after text.toList] := by
    cases hopen : openComment? none (place .start text.toList) <;>
      simp [ofText, Ending.symbols, hopen, Symbol.pos]
  have htokens : (ofText text).tokens.map (Symbol.pos ∘ Symbol.token) =
      (tokensOf (outsideComments false (place .start text.toList))).map Token.pos := rfl
  rw [Ending.Ordered, Ending.symbolsFrom, List.map_append, List.map_map, htokens, hends]
  refine List.pairwise_append.mpr ⟨hpairwise.sublist hsublist, ?_, ?_⟩
  · cases hopen : openComment? none (place .start text.toList) with
    | none => exact List.pairwise_singleton _ _
    | some q =>
        rcases openComment?_eq_some hopen with heq | hq
        · exact absurd heq (by simp)
        · simpa using hstop q hq
  · intro p hp q hq
    rcases List.mem_append.mp hq with hq | hq
    · -- tokens stand outside the comments
      obtain ⟨c, hc, rfl⟩ := List.mem_map.mp ((pos_tokensOf_sublist _).mem hp)
      exact before_openComment hpairwise (Option.mem_toList.mp hq) hc
    · rw [List.mem_singleton.mp hq]
      exact hstop p (hsublist.mem hp)

/-! ## What is met on the way -/

namespace Ending

variable {e : Ending} {ts mid rest : List Token} {symbol : Symbol}

/--
The symbols that are next for a reader with the tokens `ts` to go. Behind the last token these are
all that the text ends with.
-/
def ahead (e : Ending) : List Token → List Symbol
  | [] => e.symbols
  | t :: _ => [.token t]

/-- A symbol was passed on the way from `ts` to `rest`, or is next there. -/
def Met (e : Ending) (ts rest : List Token) (symbol : Symbol) : Prop :=
  (∃ passed t, ts = passed ++ rest ∧ t ∈ passed ∧ symbol = .token t) ∨ symbol ∈ e.ahead rest

theorem Met.of_suffix (h : e.Met mid rest symbol) (hmid : mid <:+ ts) : e.Met ts rest symbol := by
  obtain ⟨before, rfl⟩ := hmid
  rcases h with ⟨passed, t, rfl, ht, hsymbol⟩ | h
  · exact .inl ⟨before ++ passed, t, by simp, List.mem_append_right _ ht, hsymbol⟩
  · exact .inr h

theorem Met.to_suffix (h : e.Met ts mid symbol) (hmid : mid <:+ ts) (hrest : rest <:+ mid) :
    e.Met ts rest symbol := by
  obtain ⟨before, rfl⟩ := hmid
  obtain ⟨behind, rfl⟩ := hrest
  rcases h with ⟨passed, t, heq, ht, hsymbol⟩ | h
  · obtain rfl := List.append_cancel_right heq
    exact .inl ⟨before ++ behind, t, by simp, List.mem_append_left _ ht, hsymbol⟩
  · cases behind with
    | nil => exact .inr h
    | cons t behind =>
        -- what was next is passed now
        have hsymbol : symbol = .token t := List.mem_singleton.mp h
        exact .inl ⟨before ++ t :: behind, t, by simp, by simp, hsymbol⟩

theorem Met.mem_symbolsFrom (h : e.Met ts rest symbol) (hrest : rest <:+ ts) :
    symbol ∈ e.symbolsFrom ts := by
  rcases h with ⟨passed, t, rfl, ht, rfl⟩ | h
  · exact List.mem_append_left _ (List.mem_map_of_mem (List.mem_append_left _ ht))
  · obtain ⟨before, rfl⟩ := hrest
    rw [symbolsFrom_append]
    cases rest with
    | nil => exact List.mem_append_right _ h
    | cons t rest => simp [symbolsFrom, List.mem_singleton.mp h]

/-- What is still to come does not stand before what was met. -/
theorem Met.not_before (h : e.Met ts mid symbol) (hordered : e.Ordered ts) (hmid : mid <:+ ts)
    {t : Token} (ht : t ∈ mid) : ¬ t.pos.Before symbol.pos := by
  rcases h with ⟨passed, u, rfl, hu, rfl⟩ | hnext
  · have hsymbol : Symbol.token t ∈ e.symbolsFrom mid :=
      List.mem_append_left _ (List.mem_map_of_mem ht)
    exact (hordered.before hu hsymbol).asymm
  · cases mid with
    | nil => exact absurd ht List.not_mem_nil
    | cons u mid =>
        obtain rfl : symbol = .token u := List.mem_singleton.mp hnext
        rcases List.mem_cons.mp ht with rfl | ht
        · exact Position.Before.irrefl _
        · have hordered : e.Ordered ([u] ++ mid) := hordered.of_suffix hmid
          have hsymbol : Symbol.token t ∈ e.symbolsFrom mid :=
            List.mem_append_left _ (List.mem_map_of_mem ht)
          exact (hordered.before (List.mem_singleton_self u) hsymbol).asymm

theorem current_mem_ahead (ts : List Token) : e.current ts ∈ e.ahead ts := by
  cases ts <;> simp [current, ahead, symbols]

end Ending

namespace Outline

variable {e : Ending} {entered : List Block} {ts mid : List Token} {o : Outline} {items : List Item}

/-- Items that are faults, each at a symbol met on the way from `ts` to `rest`. -/
def FaultsMet (e : Ending) (ts rest : List Token) (items : List Item) : Prop :=
  ∀ item ∈ items, ∃ error symbol, item = .fault error symbol ∧ e.Met ts rest symbol

/-- An outline that passes some tokens and notes only faults, each at a symbol that it meets. -/
structure Notes (e : Ending) (ts : List Token) (o : Outline) : Prop where
  suffix : o.rest <:+ ts
  faults : FaultsMet e ts o.rest o.items

theorem notes_nothing (ts : List Token) : Notes e ts (nothing ts) :=
  ⟨List.suffix_refl ts, fun _ hitem => absurd hitem List.not_mem_nil⟩

theorem Notes.behind (h : Notes e mid o) (hmid : mid <:+ ts) (hitems : FaultsMet e ts mid items) :
    Notes e ts (o.behind items) := by
  refine ⟨h.suffix.trans hmid, ?_⟩
  intro item hitem
  rcases List.mem_append.mp hitem with hitem | hitem
  · obtain ⟨error, symbol, rfl, hmet⟩ := hitems item hitem
    exact ⟨error, symbol, rfl, hmet.to_suffix hmid h.suffix⟩
  · obtain ⟨error, symbol, rfl, hmet⟩ := h.faults item hitem
    exact ⟨error, symbol, rfl, hmet.of_suffix hmid⟩

/-- On arrival behind the last token, the comment left open is met. -/
theorem faultsMet_arrival (ts rest : List Token) : FaultsMet e ts rest (e.arrival rest) := by
  intro item hitem
  cases rest with
  | cons t rest => exact absurd hitem List.not_mem_nil
  | nil =>
      obtain ⟨p, hp, rfl⟩ := Option.map_eq_some_iff.mp (Option.mem_toList.mp hitem)
      exact ⟨_, _, rfl, .inr (by simp [Ending.ahead, Ending.symbols, hp])⟩

theorem Notes.behind_arrival (h : Notes e mid o) (hmid : mid <:+ ts) :
    Notes e ts (o.behind (e.arrival mid)) :=
  h.behind hmid (faultsMet_arrival ts mid)

theorem Notes.behind_passed {t : Token} (h : Notes e mid o) (error : SyntaxError) :
    Notes e (t :: mid) (o.behind (.fault error (.token t) :: e.arrival mid)) := by
  refine h.behind (List.suffix_cons t mid) ?_
  intro item hitem
  rcases List.mem_cons.mp hitem with rfl | hitem
  · exact ⟨_, _, rfl, .inl ⟨[t], t, rfl, List.mem_singleton_self t, rfl⟩⟩
  · exact faultsMet_arrival _ mid item hitem

theorem notes_extraSemicolons (e : Ending) (ts : List Token) :
    Notes e ts (extraSemicolons e ts) := by
  induction ts with
  | nil => exact notes_nothing []
  | cons t ts ih =>
      unfold extraSemicolons
      split
      · exact ih.behind_passed _
      · exact notes_nothing _

theorem notes_recoverInBlock (e : Ending) (ts : List Token) : Notes e ts (recoverInBlock e ts) := by
  induction ts with
  | nil => exact notes_nothing []
  | cons t ts ih =>
      unfold recoverInBlock
      split
      · exact notes_nothing _
      · exact (notes_extraSemicolons e ts).behind_arrival (List.suffix_cons t ts)
      · exact ih.behind_arrival (List.suffix_cons t ts)

theorem notes_recoverOutOfBlock (e : Ending) (entered : List Block) (ts : List Token) :
    Notes e ts (recoverOutOfBlock e entered ts) := by
  induction ts with
  | nil => exact notes_nothing []
  | cons t ts ih =>
      unfold recoverOutOfBlock
      split
      · exact notes_nothing _
      · split
        · split
          · exact ih.behind_passed _
          · exact notes_nothing _
        · exact ih.behind_arrival (List.suffix_cons t ts)
      · exact ih.behind_arrival (List.suffix_cons t ts)

theorem notes_advance (e : Ending) (ts : List Token) : Notes e ts (e.advance ts) := by
  cases ts with
  | nil => exact notes_nothing []
  | cons t ts => exact ⟨List.suffix_cons t ts, faultsMet_arrival _ ts⟩

/-- **A report notes faults only**, the first of them at the symbol that is next. -/
theorem notes_report (e : Ending) (entered : List Block) (error : SyntaxError) (ts : List Token) :
    Notes e ts (report e entered error ts) := by
  have hpassed : Notes e ts (if error.plan.advance then e.advance ts else nothing ts) := by
    split
    · exact notes_advance e ts
    · exact notes_nothing ts
  unfold report
  generalize (if error.plan.advance then e.advance ts else nothing ts) = passed at hpassed ⊢
  have hrecovered : ∀ recovered, Notes e passed.rest recovered →
      Notes e ts (recovered.behind (.fault error (e.current ts) :: passed.items)) := by
    intro recovered h
    refine h.behind hpassed.suffix ?_
    intro item hitem
    rcases List.mem_cons.mp hitem with rfl | hitem
    · refine ⟨_, _, rfl, ?_⟩
      exact Ending.Met.to_suffix (.inr (Ending.current_mem_ahead ts)) (List.suffix_refl ts)
        hpassed.suffix
    · exact hpassed.faults item hitem
  split
  · exact hrecovered _ (notes_nothing _)
  · exact hrecovered _ (notes_recoverInBlock e _)
  · exact hrecovered _ (notes_recoverOutOfBlock e entered _)

theorem notes_seek (e : Ending) (entered : List Block) (b : Block) (ts : List Token) :
    Notes e ts (seek e entered b ts) := by
  unfold seek
  split
  · exact notes_nothing ts
  · exact notes_report e entered _ ts

end Outline

end LogicNet
