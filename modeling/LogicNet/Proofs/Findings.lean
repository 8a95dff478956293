import LogicNet.Proofs.Course
import LogicNet.Proofs.Places

/-!
# What is found besides faults

Recovery finds nothing but faults. So, faults apart, the outline of a file is as simple as if there
were none: the blocks that are entered, in order and each at most once, and in each of them
declarations of its form up to where it ends.
-/

namespace LogicNet

namespace Item

/-- Whether an item is a fault. -/
def isFault : Item → Bool
  | .fault _ _ => true
  | .opened _ | .declared _ | .closed _ _ => false

/-- The items that are no faults. -/
def findings (items : List Item) : List Item := items.filter fun item => !item.isFault

@[simp] theorem findings_append (as bs : List Item) :
    findings (as ++ bs) = findings as ++ findings bs := List.filter_append _ _

/-- What has nothing to do with faults depends on the findings only. -/
theorem filterMap_findings {α : Type} {f : Item → Option α}
    (hf : ∀ error symbol, f (.fault error symbol) = none) (items : List Item) :
    (findings items).filterMap f = items.filterMap f := by
  induction items with
  | nil => rfl
  | cons item items ih =>
      cases item with
      | fault error symbol => rw [List.filterMap_cons_none (hf error symbol), ← ih]; rfl
      | opened _ | declared _ | closed _ _ =>
          simp only [findings, isFault, Bool.not_false, List.filter_cons_of_pos,
            List.filterMap_cons]
          rw [← ih]
          rfl

end Item

/-- What a block can be found to hold, if it is found at all. -/
inductive Block.Found (b : Block) : List Item → Prop
  | missing : Found b []
  | entered {ds : List Declaration} (last : Option Token) :
      (∀ d ∈ ds, ∃ ts, b.Declares d ts) →
      Found b (.opened b :: (ds.map .declared ++ last.toList.map (.closed b)))

namespace Outline

variable {e : Ending} {ts rest : List Token} {o : Outline} {items : List Item}

theorem FaultsMet.findings_eq_nil (h : FaultsMet e ts rest items) : Item.findings items = [] := by
  refine List.filter_eq_nil_iff.mpr fun item hitem => ?_
  obtain ⟨error, symbol, rfl, -⟩ := h item hitem
  simp [Item.isFault]

theorem findings_arrival (e : Ending) (ts : List Token) : Item.findings (e.arrival ts) = [] :=
  (faultsMet_arrival ts ts).findings_eq_nil

theorem findings_report (e : Ending) (entered : List Block) (error : SyntaxError)
    (ts : List Token) : Item.findings (report e entered error ts).items = [] :=
  (notes_report e entered error ts).faults.findings_eq_nil

theorem findings_seek (e : Ending) (entered : List Block) (b : Block) (ts : List Token) :
    Item.findings (seek e entered b ts).items = [] :=
  (notes_seek e entered b ts).faults.findings_eq_nil

/-- In a block only declarations of its form are found, and perhaps its end. -/
theorem findings_body (e : Ending) (entered : List Block) (b : Block) (ts : List Token) :
    ∃ (ds : List Declaration) (last : Option Token), (∀ d ∈ ds, ∃ us, b.Declares d us) ∧
      Item.findings (body e entered b ts).items =
        ds.map .declared ++ last.toList.map (.closed b) := by
  induction ts using body_cases e entered b with
  | nil =>
      rw [body_nil, findings_report]
      exact ⟨[], none, by simp, rfl⟩
  | word w ts ih =>
      obtain ⟨ds, last, hds, hfound⟩ := ih
      rw [body_word, items_behind, Item.findings_append]
      rcases declaration_cases e entered b w ts with
        ⟨d, us, rest, hd, -, hread⟩ | ⟨-, error, pre, rest, -, -, -, -, hread⟩
      · refine ⟨d :: ds, last, ?_, ?_⟩
        · intro x hx
          rcases List.mem_cons.mp hx with rfl | hx
          · exact ⟨_, hd⟩
          · exact hds x hx
        · rw [hfound, hread, Item.findings_append, findings_arrival]
          rfl
      · refine ⟨ds, last, hds, ?_⟩
        rw [hfound, hread, items_behind, Item.findings_append, findings_arrival, findings_report]
        rfl
  | closed t ts ht =>
      rw [body_end ht]
      refine ⟨[], some t, by simp, ?_⟩
      exact congrArg (Item.closed b t :: ·) (findings_arrival e ts)
  | keyword t ts k ht hk =>
      rw [body_keyword ht hk, findings_report]
      exact ⟨[], none, by simp, rfl⟩
  | semicolon t ts ht ih =>
      obtain ⟨ds, last, hds, hfound⟩ := ih
      rw [body_semicolon ht, items_behind, Item.findings_append, hfound]
      refine ⟨ds, last, hds, ?_⟩
      exact congrArg (· ++ _) (findings_arrival e ts)
  | stray t ts ht ih =>
      obtain ⟨ds, last, hds, hfound⟩ := ih
      rw [body_stray ht, items_behind, Item.findings_append, hfound, findings_report]
      exact ⟨ds, last, hds, rfl⟩

/-- **The blocks are found in order**, each at most once. -/
theorem findings_blocks (e : Ending) (entered bs : List Block) (ts : List Token) :
    Form.Many Block.Found bs (Item.findings (blocks e entered bs ts).items) := by
  induction bs generalizing entered ts with
  | nil =>
      rw [blocks]
      split
      · exact .nil
      · rw [findings_report]
        exact .nil
  | cons b bs ih =>
      rcases seek_cases e entered b ts with ⟨t, rest, hrest, ht⟩ | hmissing
      · obtain ⟨ds, last, hds, hfound⟩ := findings_body e (b :: entered) b rest
        have hopened : Item.findings (.opened b :: (body e (b :: entered) b rest).items) = _ :=
          congrArg (Item.opened b :: ·) hfound
        rw [blocks_of_entered hrest ht, items_behind, Item.findings_append, Item.findings_append,
          Item.findings_append, findings_seek, findings_arrival, hopened]
        exact .cons (.entered last hds) (ih _ _)
      · rw [blocks_of_missing hmissing, items_behind, Item.findings_append, findings_seek]
        exact .cons .missing (ih _ _)

/-- Faults apart, a file is the three blocks in order, as far as they are found. -/
theorem findings_ofStream (s : TokenStream) :
    Form.Many Block.Found Block.all (Item.findings (ofStream s).items) := by
  rw [ofStream, items_behind, Item.findings_append, findings_arrival]
  exact findings_blocks s.ending [] Block.all s.tokens

end Outline

end LogicNet
