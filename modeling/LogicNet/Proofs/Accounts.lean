import LogicNet.Proofs.Contents

/-!
# What can be built of a file

Which declarations a file holds is said without a reader (`TokenStream.declarations`). A reader
finds all of them, in order. But some are found too late to be built: those behind the first fault
that leaves the rest of the file in doubt, and one more. A reader looks one symbol ahead. If the
semicolon of a declaration is the last token and a comment is left open behind it, the comment is
noted first.

What a stretch of reading finds is summed up by `Outline.Accounts`, and one stretch can follow
another (`Accounts.followedBy`) because symbols stand in reading order.
-/

namespace LogicNet

open Text (Position)

instance : DecidableRel Position.Before := fun p q =>
  inferInstanceAs (Decidable (p.line < q.line ∨ p.line = q.line ∧ p.column < q.column))

/-- The last token stands at `p`, and behind it a comment is left open. -/
def TokenStream.runsIntoComment (s : TokenStream) (p : Position) : Bool :=
  s.ending.openComment.isSome && s.tokens.getLast?.map Token.pos == some p

/-! ## What can be built -/

/-- Where the first diagnostic is that blocks the building. -/
def Diagnostic.firstBlocking (ds : List Diagnostic) : Option Position :=
  (ds.find? fun d => d.kind.blocksBuilding).map Diagnostic.pos

theorem Diagnostic.firstBlocking_append (as bs : List Diagnostic) :
    firstBlocking (as ++ bs) = (firstBlocking as).or (firstBlocking bs) := by
  rw [firstBlocking, List.find?_append, Option.map_or]
  rfl

/-- Where the first item is that blocks the building. -/
def Item.firstBlocking (items : List Item) : Option Position :=
  Diagnostic.firstBlocking (items.filterMap Item.fault?)

theorem Item.firstBlocking_append (as bs : List Item) :
    firstBlocking (as ++ bs) = (firstBlocking as).or (firstBlocking bs) := by
  rw [firstBlocking, List.filterMap_append, Diagnostic.firstBlocking_append]
  rfl

/-- The declarations before the first item that blocks the building. -/
def Item.buildable : List Item → List Declaration
  | [] => []
  | .declared d :: items => d :: buildable items
  | .fault error _ :: items => if error.blocksBuilding then [] else buildable items
  | .opened _ :: items | .closed _ _ :: items => buildable items

theorem Item.buildable_append (as bs : List Item) :
    buildable (as ++ bs) =
      buildable as ++ if firstBlocking as = none then buildable bs else [] := by
  induction as with
  | nil => rfl
  | cons a as ih =>
      cases a with
      | opened b => exact ih
      | closed b last => exact ih
      | declared d => exact congrArg (d :: ·) ih
      | fault error symbol =>
          have hfirst : firstBlocking (.fault error symbol :: as) =
              if error.blocksBuilding then some symbol.pos else firstBlocking as := by
            cases h : error.blocksBuilding <;>
              simp [firstBlocking, Diagnostic.firstBlocking, fault?, ErrorKind.blocksBuilding, h,
                Diagnostic.pos]
          rw [List.cons_append, buildable, buildable, hfirst]
          split
          · rfl
          · exact ih

/-- In reading order, as far as there is a second place. -/
def standsBefore (p : Position) (place : Option Position) : Bool :=
  place.all fun q => decide (p.Before q)

/-! ## What a stretch of reading finds -/

namespace TokenStream

variable {s : TokenStream} {first : Option Position} {ds ds' : List (Declaration × Position)}

/--
The declarations that are closed before the place `first` where building is blocked, but for the
one that runs into a comment.
-/
def inTime (s : TokenStream) (first : Option Position) (ds : List (Declaration × Position)) :
    List Declaration :=
  (ds.filter fun d => standsBefore d.2 first && !s.runsIntoComment d.2).map Prod.fst

theorem inTime_append : s.inTime first (ds ++ ds') = s.inTime first ds ++ s.inTime first ds' := by
  simp [inTime]

theorem inTime_eq_of_before (h : ∀ d ∈ ds, ∀ q ∈ first, d.2.Before q) :
    s.inTime first ds = s.inTime none ds := by
  rw [inTime, inTime]
  congr 1
  refine List.filter_congr fun d hd => ?_
  have hbefore : standsBefore d.2 first = true := by
    cases first with
    | none => rfl
    | some q => exact decide_eq_true (h d hd q rfl)
  rw [hbefore]
  rfl

theorem inTime_eq_nil {q : Position} (h : ∀ d ∈ ds, ¬ d.2.Before q) :
    s.inTime (some q) ds = [] := by
  rw [inTime, List.map_eq_nil_iff, List.filter_eq_nil_iff]
  intro d hd
  simp [standsBefore, h d hd]

/-- The token that runs into a comment is the last one. -/
theorem runsIntoComment_eq (h : s.ending.Ordered s.tokens) {before rest : List Token} {t : Token}
    (htokens : s.tokens = before ++ t :: rest) :
    s.runsIntoComment t.pos = (s.ending.openComment.isSome && rest.isEmpty) := by
  rw [runsIntoComment, htokens]
  rcases rest.eq_nil_or_concat' with rfl | ⟨us, u, rfl⟩
  · simp
  · -- the last token stands behind `t`
    have hordered : s.ending.Ordered ([t] ++ (us ++ [u])) :=
      h.of_suffix (htokens ▸ List.suffix_append before _)
    have hlast : Symbol.token u ∈ s.ending.symbolsFrom (us ++ [u]) := by
      simp [Ending.symbolsFrom]
    have hbefore : t.pos.Before u.pos := hordered.before (List.mem_singleton_self t) hlast
    have hne : (u.pos == t.pos) = false :=
      beq_eq_false_iff_ne.mpr fun heq => Position.Before.irrefl t.pos (heq ▸ hbefore)
    have htail : before ++ t :: (us ++ [u]) = (before ++ t :: us) ++ [u] := by simp
    rw [htail, List.getLast?_concat]
    simp [hne]

end TokenStream

namespace Outline

variable {s : TokenStream} {entered bs : List Block} {b : Block} {ts rest : List Token}
  {o o' : Outline} {items : List Item} {ds ds' : List (Declaration × Position)}

/-- The declarations `ds` are those that stand where an outline was made. -/
structure Accounts (s : TokenStream) (ts : List Token) (ds : List (Declaration × Position))
    (o : Outline) : Prop where
  suffix : o.rest <:+ ts
  /-- The first item that blocks the building is met there. -/
  met : ∀ q ∈ Item.firstBlocking o.items, ∃ symbol, s.ending.Met ts o.rest symbol ∧ symbol.pos = q
  /-- The declarations are closed there. -/
  passed : ∀ d ∈ ds, ∃ before t, ts = before ++ o.rest ∧ t ∈ before ∧ t.pos = d.2
  /-- Of the declarations, those can be built that are closed in time. -/
  inTime : Item.buildable o.items = s.inTime (Item.firstBlocking o.items) ds

theorem FaultsMet.met_firstBlocking {e : Ending} (h : FaultsMet e ts rest items) :
    ∀ q ∈ Item.firstBlocking items, ∃ symbol, e.Met ts rest symbol ∧ symbol.pos = q := by
  intro q hq
  obtain ⟨d, hd, rfl⟩ := Option.map_eq_some_iff.mp hq
  obtain ⟨item, hitem, hfault⟩ := List.mem_filterMap.mp (List.mem_of_find?_eq_some hd)
  obtain ⟨error, symbol, rfl, hmet⟩ := h item hitem
  cases hfault
  exact ⟨symbol, hmet, rfl⟩

theorem FaultsMet.buildable_eq_nil {e : Ending} (h : FaultsMet e ts rest items) :
    Item.buildable items = [] := by
  induction items with
  | nil => rfl
  | cons item items ih =>
      obtain ⟨error, symbol, rfl, -⟩ := h item (by simp)
      rw [Item.buildable, ih fun x hx => h x (by simp [hx])]
      split <;> rfl

/-- Where only faults are noted, no declaration stands. -/
theorem Notes.accounts (h : Notes s.ending ts o) : Accounts s ts [] o where
  suffix := h.suffix
  met := h.faults.met_firstBlocking
  passed := by simp
  inTime := h.faults.buildable_eq_nil

/-- **One stretch of reading follows another.** -/
theorem Accounts.followedBy (h : Accounts s ts ds o) (h' : Accounts s o.rest ds' o')
    (hordered : s.ending.Ordered ts) : Accounts s ts (ds ++ ds') (o'.behind o.items) where
  suffix := h'.suffix.trans h.suffix
  met := by
    intro q hq
    rw [items_behind, Item.firstBlocking_append] at hq
    cases hfirst : Item.firstBlocking o.items with
    | some q' =>
        obtain rfl : q' = q := by simpa [hfirst] using hq
        obtain ⟨symbol, hmet, hpos⟩ := h.met q' hfirst
        exact ⟨symbol, hmet.to_suffix h.suffix h'.suffix, hpos⟩
    | none =>
        obtain ⟨symbol, hmet, hpos⟩ := h'.met q (by simpa [hfirst] using hq)
        exact ⟨symbol, hmet.of_suffix h.suffix, hpos⟩
  passed := by
    obtain ⟨between, hbetween⟩ := h'.suffix
    intro d hd
    rcases List.mem_append.mp hd with hd | hd
    · obtain ⟨before, t, hts, ht, hpos⟩ := h.passed d hd
      exact ⟨before ++ between, t, by rw [hts, ← hbetween, List.append_assoc]; rfl,
        List.mem_append_left _ ht, hpos⟩
    · obtain ⟨before, hbefore⟩ := h.suffix
      obtain ⟨before', t, hts, ht, hpos⟩ := h'.passed d hd
      exact ⟨before ++ before', t, by rw [← hbefore, hts, List.append_assoc]; rfl,
        List.mem_append_right _ ht, hpos⟩
  inTime := by
    rw [items_behind, Item.buildable_append, Item.firstBlocking_append, h.inTime,
      TokenStream.inTime_append]
    cases hfirst : Item.firstBlocking o.items with
    | none =>
        -- what blocks the building stands behind all that was passed before
        rw [if_pos rfl, h'.inTime, Option.none_or, ← TokenStream.inTime_eq_of_before]
        intro d hd q hq
        obtain ⟨before, t, hts, ht, hpos⟩ := h.passed d hd
        obtain ⟨symbol, hmet, rfl⟩ := h'.met q hq
        rw [hts] at hordered
        exact hpos ▸ hordered.before ht (hmet.mem_symbolsFrom h'.suffix)
    | some q =>
        -- what is passed later does not stand before what blocks the building
        rw [if_neg (by simp), Option.some_or, List.append_cancel_left_eq,
          TokenStream.inTime_eq_nil]
        intro d hd
        obtain ⟨before, t, hts, ht, hpos⟩ := h'.passed d hd
        obtain ⟨symbol, hmet, rfl⟩ := h.met q hfirst
        have ht' : t ∈ o.rest := hts ▸ List.mem_append_left _ ht
        exact hpos ▸ hmet.not_before hordered h.suffix ht'

/-- A declaration that is read is built, unless it runs into a comment. -/
theorem accounts_declared {d : Declaration} {us : List Token} (hd : b.Declares d us)
    (hordered : s.ending.Ordered s.tokens) (hts : us ++ rest <:+ s.tokens) :
    ∃ p, (∀ ts, b.contents [] (us ++ ts) = (b.contents [] ts).behind (some (d, p))) ∧
      Accounts s (us ++ rest) [(d, p)] ⟨s.ending.arrival rest ++ [.declared d], rest⟩ := by
  obtain ⟨vs, p, rfl, hstands⟩ := hd.exists_contents
  have hnotes : FaultsMet s.ending (vs ++ [⟨.semicolon, p⟩] ++ rest) rest (s.ending.arrival rest) :=
    faultsMet_arrival _ rest
  have hfirst : Item.firstBlocking (s.ending.arrival rest ++ [.declared d]) =
      Item.firstBlocking (s.ending.arrival rest) := by
    rw [Item.firstBlocking_append]
    exact Option.or_none
  refine ⟨p, hstands, ?_, ?_, ?_, ?_⟩
  · exact List.suffix_append _ _
  · rw [hfirst]
    exact hnotes.met_firstBlocking
  · intro x hx
    obtain rfl := List.mem_singleton.mp hx
    exact ⟨_, ⟨.semicolon, p⟩, rfl, by simp, rfl⟩
  · obtain ⟨before, hbefore⟩ := hts
    have htokens : s.tokens = (before ++ vs) ++ ⟨.semicolon, p⟩ :: rest := by
      rw [← hbefore]
      simp
    have hruns : s.runsIntoComment p = (s.ending.openComment.isSome && rest.isEmpty) :=
      TokenStream.runsIntoComment_eq hordered htokens
    rw [hfirst, TokenStream.inTime, List.filter_singleton, hruns]
    cases rest with
    | cons t rest => simp [Ending.arrival, Item.buildable, Item.firstBlocking,
        Diagnostic.firstBlocking, standsBefore]
    | nil =>
        cases hopen : s.ending.openComment with
        | none => simp [Ending.arrival, hopen, Item.buildable, Item.firstBlocking,
            Diagnostic.firstBlocking, standsBefore]
        | some q => simp [Ending.arrival, hopen, Item.buildable, SyntaxError.blocksBuilding]

/-- An item that is neither a declaration nor a fault changes no account. -/
theorem Accounts.behind_other (h : Accounts s ts ds o) (item : Item) (hopen : item.fault? = none)
    (hother : Item.buildable [item] = []) : Accounts s ts ds (o.behind [item]) := by
  have hfirst : Item.firstBlocking [item] = none := by
    simp [Item.firstBlocking, hopen, Diagnostic.firstBlocking]
  have hitems : Item.firstBlocking (o.behind [item]).items = Item.firstBlocking o.items := by
    rw [items_behind, Item.firstBlocking_append, hfirst, Option.none_or]
  refine ⟨h.suffix, ?_, h.passed, ?_⟩
  · rw [hitems]
    exact h.met
  · rw [hitems, ← h.inTime, items_behind, Item.buildable_append, hother, if_pos hfirst,
      List.nil_append]

/-- **Reading a block finds the declarations that stand in it.** -/
theorem accounts_body (entered : List Block) (b : Block) (hordered : s.ending.Ordered s.tokens)
    (hts : ts <:+ s.tokens) :
    Accounts s ts (b.contents [] ts).declarations (body s.ending entered b ts) := by
  induction ts using body_cases s.ending entered b with
  | nil =>
      rw [body_nil]
      exact (notes_report _ _ _ _).accounts
  | word w ts ih =>
      have hrest := rest_declaration_suffix s.ending entered b w ts
      have hnext := ih ((hrest.trans (List.suffix_cons _ _)).trans hts)
      rw [body_word]
      rcases declaration_cases s.ending entered b w ts with
        ⟨d, us, rest, hd, rfl, hread⟩ | ⟨hnone, error, pre, rest, herror, rfl, hbegins, -, hread⟩
      · obtain ⟨p, hstands, hfirst⟩ := accounts_declared hd hordered hts
        rw [hread] at hnext ⊢
        rw [← List.cons_append, hstands]
        exact hfirst.followedBy hnext (hordered.of_suffix hts)
      · have hnotes : Notes s.ending (w.token :: (pre ++ rest))
            (declaration s.ending entered b w (pre ++ rest)) := by
          rw [hread]
          exact (notes_report _ _ _ _).behind_arrival ⟨w.token :: pre, rfl⟩
        have hstands : b.contents [] (declaration s.ending entered b w (pre ++ rest)).rest =
            b.contents [] (w.token :: (pre ++ rest)) := by
          rw [hread, rest_behind, contents_report herror hbegins hnone]
        rw [← hstands]
        exact hnotes.accounts.followedBy hnext (hordered.of_suffix hts)
  | closed t ts ht =>
      rw [body_end ht, Block.contents_end ht]
      have hpassed : Notes s.ending (t :: ts) ⟨s.ending.arrival ts, ts⟩ := notes_advance _ _
      exact hpassed.accounts.behind_other (.closed b t) rfl rfl
  | keyword t ts k ht hk =>
      rw [body_keyword ht hk, Block.contents_keyword ht hk]
      exact (notes_report _ _ _ _).accounts
  | semicolon t ts ht ih =>
      have hnotes : Notes s.ending (t :: ts)
          ⟨.fault .extraSemicolon (.token t) :: s.ending.arrival ts, ts⟩ := by
        simpa [behind, nothing] using (notes_nothing ts).behind_passed .extraSemicolon
      rw [body_semicolon ht, Block.contents_surplus ht]
      exact hnotes.accounts.followedBy (ih ((List.suffix_cons t ts).trans hts))
        (hordered.of_suffix hts)
  | stray t ts ht ih =>
      have hrest := rest_report_suffix s.ending entered b.strayError (t :: ts)
      have hnext := ih (hrest.trans hts)
      rw [contents_stray ht] at hnext
      rw [body_stray ht]
      exact (notes_report _ _ _ _).accounts.followedBy hnext (hordered.of_suffix hts)

/-- **Reading the blocks of a file finds the declarations that stand in them.** -/
theorem accounts_blocks (hfresh : (bs ++ entered).Nodup) (hordered : s.ending.Ordered s.tokens)
    (hts : ts <:+ s.tokens) :
    Accounts s ts
      ((Block.bodies entered bs ts).flatMap fun x => (x.1.contents [] x.2).declarations)
      (blocks s.ending entered bs ts) := by
  induction bs generalizing entered ts with
  | nil =>
      rw [blocks]
      split
      · exact (notes_nothing ts).accounts
      · exact (notes_report _ _ _ _).accounts
  | cons b bs ih =>
      obtain ⟨hb, hmore⟩ := List.nodup_cons.mp hfresh
      have hb : b ∉ entered := fun hmem => hb (List.mem_append_right bs hmem)
      have hsought := notes_seek s.ending entered b ts
      have hordered' := hordered.of_suffix hts
      rcases seek_cases s.ending entered b ts with ⟨t, rest, hrest, ht⟩ | hmissing
      · -- the keyword, the block, and the blocks behind it
        have hmore : t :: rest <:+ s.tokens := hrest ▸ hsought.suffix.trans hts
        have hbody : rest <:+ s.tokens := (List.suffix_cons t rest).trans hmore
        have hfound := accounts_body (b :: entered) b hordered hbody
        have hnext := ih (List.nodup_middle.mpr hfresh) (hfound.suffix.trans hbody)
        have hentered := (hfound.followedBy hnext (hordered.of_suffix hbody)).behind_other
          (.opened b) rfl rfl
        have hkeyword : Notes s.ending (t :: rest) ⟨s.ending.arrival rest, rest⟩ :=
          notes_advance _ _
        have hblock := hkeyword.accounts.followedBy hentered (hordered.of_suffix hmore)
        have hall := hsought.accounts.followedBy (hrest ▸ hblock) hordered'
        rw [bodies_of_entered hb hrest ht, blocks_of_entered hrest ht]
        simpa [behind_behind, List.append_assoc] using hall
      · have hnext := ih hmore (hsought.suffix.trans hts)
        rw [bodies_of_missing hb hmissing, blocks_of_missing hmissing]
        exact hsought.accounts.followedBy hnext hordered'

/-- **What can be built are the declarations that are closed in time.** -/
theorem buildable_ofStream (hordered : s.ending.Ordered s.tokens) :
    Item.buildable (ofStream s).items =
      s.inTime (Item.firstBlocking (ofStream s).items) s.declarations := by
  have hfresh : (Block.all ++ []).Nodup := by decide
  have hstart : Notes s.ending s.tokens ⟨s.ending.arrival s.tokens, s.tokens⟩ :=
    ⟨List.suffix_refl _, faultsMet_arrival _ _⟩
  exact (hstart.accounts.followedBy (accounts_blocks hfresh hordered (List.suffix_refl _))
    hordered).inTime

end Outline

end LogicNet
