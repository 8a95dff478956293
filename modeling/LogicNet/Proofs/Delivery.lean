import LogicNet.Network.Scripted
import LogicNet.Proofs.Accounts
import LogicNet.Proofs.Discipline
import LogicNet.Proofs.Protocol

/-!
# Which declarations reach the builder

A declaration is to be handed over as soon as its semicolon is read, unless something that leaves
the rest of the file in doubt was found before. This file says which declarations are handed over,
for every text and every builder: all that are closed before the first such place, each once and in
order, but for those that refer to a rejected device and for one more.

That one is lost. Its semicolon is the last token of the text and a comment is left open behind it:
the reader has looked one symbol ahead, and has noted the comment, when the declaration is handed
over. `parse_loses_declaration` shows it.

Which devices are rejected can be told at the end, since all devices are handed over before the
first declaration that refers to one.
-/

namespace LogicNet

open Text (Position)

/-! ## Handing over the items of an outline -/

namespace Progress

variable {β : Type} [NetworkBuilder β] {ids : String → NameId} {items : List Item}

theorem calls_declare (p : Progress β) (ids : String → NameId) (d : Declaration) :
    (p.declare ids d).1.filterMap Event.call? =
      if d.isFree ids (· ∈ p.rejected) then [d.call ids] else [] := by
  rcases p.declare_cases ids d with
    ⟨hskip, hd⟩ | ⟨hfree, ⟨b, -, hd⟩ | ⟨b, kind, symbol, -, -, hd⟩⟩
  · rw [hd, hskip]
    rfl
  · rw [hd, hfree]
    rfl
  · rw [hd, hfree]
    rfl

/-- The end of a block hands nothing over, and what building remembers stays. -/
theorem step_closed (p : Progress β) (ids : String → NameId) (b : Block) (last : Token) :
    (p.step ids (.closed b last)).1.filterMap Event.call? = [] ∧
      (p.step ids (.closed b last)).2.rejected = p.rejected ∧
      (p.step ids (.closed b last)).2.blocked = p.blocked := by
  simp only [step, check]
  split
  · split
    · exact ⟨rfl, rfl, rfl⟩
    · exact ⟨rfl, rfl, Bool.or_false p.blocked⟩
  · exact ⟨rfl, rfl, rfl⟩

/-- Where no device is declared, the same devices stay rejected. -/
theorem rejected_steps (p : Progress β) (h : Stage.devices ∉ items.filterMap Item.stage?) :
    (p.steps ids items).2.rejected = p.rejected := by
  induction items generalizing p with
  | nil => rfl
  | cons item items ih =>
      have hstage : item.stage? ≠ some .devices := by
        intro hitem
        exact h (List.mem_filterMap.mpr ⟨item, by simp, hitem⟩)
      have hstages : Stage.devices ∉ items.filterMap Item.stage? := by
        intro hmem
        obtain ⟨x, hx, hdevices⟩ := List.mem_filterMap.mp hmem
        exact h (List.mem_filterMap.mpr ⟨x, List.mem_cons_of_mem _ hx, hdevices⟩)
      rw [steps, ih _ hstages]
      cases item with
      | opened b => rfl
      | fault error symbol => rfl
      | closed b last => exact (step_closed p ids b last).2.1
      | declared d =>
          rw [step]
          split
          · rfl
          · refine rejected_declare fun x hx => hstage ?_
            rw [hx]
            rfl

/--
**A run hands over what can be built**, but for what refers to a device that is rejected in the end.
-/
theorem calls_steps (p : Progress β) (ids : String → NameId)
    (hdevices : (items.filterMap Item.stage?).Pairwise fun a b => b = .devices → a = .devices) :
    (p.steps ids items).1.filterMap Event.call? =
      if p.blocked then []
      else ((Item.buildable items).filter
        (·.isFree ids (· ∈ (p.steps ids items).2.rejected))).map (·.call ids) := by
  induction items generalizing p with
  | nil => simp [Item.buildable]
  | cons item items ih =>
      have hrest : (items.filterMap Item.stage?).Pairwise fun a b => b = .devices → a = .devices :=
        hdevices.sublist ((List.sublist_cons_self item items).filterMap _)
      rw [steps, List.filterMap_append]
      cases item with
      | opened b => exact ih p hrest
      | closed b last =>
          obtain ⟨hcalls, -, hblocked⟩ := step_closed p ids b last
          rw [hcalls, List.nil_append, ih _ hrest, hblocked, Item.buildable]
      | fault error symbol =>
          have hcalls : (p.step ids (.fault error symbol)).1.filterMap Event.call? = [] := rfl
          have hblocked : (p.step ids (.fault error symbol)).2.blocked =
              (p.blocked || error.blocksBuilding) := rfl
          rw [hcalls, List.nil_append, ih _ hrest, hblocked, Item.buildable]
          cases p.blocked <;> cases error.blocksBuilding <;> rfl
      | declared d =>
          cases hopen : p.blocked with
          | true =>
              have hstep : p.step ids (.declared d) = ([], p) := by simp [step, hopen]
              rw [hstep, ih p hrest, hopen]
              rfl
          | false =>
              have hstep : p.step ids (.declared d) = p.declare ids d := by simp [step, hopen]
              rw [hstep, calls_declare, ih _ hrest, blocked_declare, hopen]
              -- whether `d` is free is settled when it is handed over
              have hfree : d.isFree ids (· ∈ p.rejected) =
                  d.isFree ids (· ∈ ((p.declare ids d).2.steps ids items).2.rejected) := by
                by_cases hd : ∃ x, d = .device x
                · obtain ⟨x, rfl⟩ := hd
                  rfl
                · have hother : ∀ x, d ≠ .device x := fun x hx => hd ⟨x, hx⟩
                  have hlater : Stage.devices ∉ items.filterMap Item.stage? := by
                    intro hmem
                    rw [List.filterMap_cons_some (f := Item.stage?) rfl] at hdevices
                    have hstage := (List.pairwise_cons.mp hdevices).1 _ hmem rfl
                    cases d with
                    | device x => exact hother x rfl
                    | connection x => cases hstage
                    | monitor x => cases hstage
                  rw [rejected_steps _ hlater, rejected_declare hother]
              rw [hfree, Item.buildable, List.filter_cons]
              simp only [Bool.false_eq_true, if_false]
              split <;> rfl

/-- What the network refuses does not block the building, and neither do open inputs. -/
theorem firstBlocking_step (p : Progress β) (ids : String → NameId) (item : Item) :
    Diagnostic.firstBlocking (Event.diagnostics (p.step ids item).1) =
      Item.firstBlocking [item] := by
  cases item with
  | opened b => rfl
  | fault error symbol => rfl
  | closed b last =>
      simp only [step, check]
      split
      · split <;> rfl
      · rfl
  | declared d =>
      rw [step]
      split
      · rfl
      · rcases p.declare_cases ids d with
          ⟨-, hd⟩ | ⟨-, ⟨b, -, hd⟩ | ⟨b, kind, symbol, -, hblame, hd⟩⟩
        · rw [hd]
          rfl
        · rw [hd]
          rfl
        · rw [hd]
          simp [Event.diagnostics, Event.diagnostic?, Diagnostic.firstBlocking,
            hblame.not_blocksBuilding, Item.firstBlocking, Item.fault?]

/-- **Building is blocked where the first fault says so**, whatever the builder answers. -/
theorem firstBlocking_steps (p : Progress β) (ids : String → NameId) (items : List Item) :
    Diagnostic.firstBlocking (Event.diagnostics (p.steps ids items).1) =
      Item.firstBlocking items := by
  induction items generalizing p with
  | nil => rfl
  | cons item items ih =>
      have hitems : Item.firstBlocking (item :: items) =
          (Item.firstBlocking [item]).or (Item.firstBlocking items) :=
        Item.firstBlocking_append [item] items
      rw [steps, Event.diagnostics_append, Diagnostic.firstBlocking_append, firstBlocking_step, ih,
        hitems]

end Progress

/-- In a file, all devices are declared first. -/
theorem Outline.devices_first (s : TokenStream) :
    ((ofStream s).items.filterMap Item.stage?).Pairwise fun a b => b = .devices → a = .devices := by
  obtain ⟨d, c, m, hsub⟩ := exists_stages_ofStream s
  refine List.Pairwise.sublist hsub ?_
  simp +contextual [List.pairwise_append, List.pairwise_replicate, List.mem_replicate]

/-! ## What is handed over -/

namespace Parsed

variable {β : Type}

/-- Where the first diagnostic is that blocks the building. -/
def firstBlocking (r : Parsed β) : Option Position := Diagnostic.firstBlocking r.diagnostics

/-- Whether a declaration refers to no rejected device. -/
def isFree (r : Parsed β) (d : Declaration) : Bool :=
  d.isFree r.names.idFor (Event.isRejected r.events)

/-- The calls that hand over those of the declarations that refer to no rejected device. -/
def callsFor (r : Parsed β) (ds : List (Declaration × Position)) : List Call :=
  ((ds.map Prod.fst).filter r.isFree).map (·.call r.names.idFor)

/-- The declarations of a file that are closed before the first place that blocks the building. -/
def closedEarly (r : Parsed β) (s : TokenStream) : List (Declaration × Position) :=
  s.declarations.filter fun d => standsBefore d.2 r.firstBlocking

/-- Declarations that are left out are missed exactly if they refer to no rejected device. -/
theorem callsFor_filter_eq_iff (r : Parsed β) (ds : List (Declaration × Position))
    (keep : Declaration × Position → Bool) :
    r.callsFor (ds.filter keep) = r.callsFor ds ↔
      ∀ d ∈ ds, keep d = false → r.isFree d.1 = false := by
  have hcalls : ∀ ds : List (Declaration × Position), r.callsFor ds =
      (ds.filter (r.isFree ∘ Prod.fst)).map fun d => d.1.call r.names.idFor := by
    intro ds
    rw [callsFor, List.filter_map, List.map_map]
    rfl
  have hkept : (∀ d ∈ ds.filter (r.isFree ∘ Prod.fst), keep d = true) ↔
      ∀ d ∈ ds, keep d = false → r.isFree d.1 = false := by
    refine ⟨?_, ?_⟩
    · intro h d hd hkeep
      by_contra hfree
      have hmem : d ∈ ds.filter (r.isFree ∘ Prod.fst) :=
        List.mem_filter.mpr ⟨hd, (Bool.not_eq_false _).mp hfree⟩
      exact absurd (h d hmem) (by simp [hkeep])
    · intro h d hd
      obtain ⟨hmem, hfree⟩ := List.mem_filter.mp hd
      by_contra hkeep
      exact absurd (h d hmem ((Bool.not_eq_true _).mp hkeep)) (by simpa using hfree)
  rw [hcalls, hcalls, List.filter_comm, ← hkept]
  refine ⟨?_, ?_⟩
  · -- what is missed makes the list of calls shorter
    intro h
    have hlength := congrArg List.length h
    rw [List.length_map, List.length_map] at hlength
    exact List.length_filter_eq_length_iff.mp hlength
  · intro h
    rw [List.filter_eq_self.mpr h]

end Parsed

/--
**No declaration is lost before the first place that blocks the building, but for one.** The
declarations that are closed before that place, and refer to no rejected device, are handed over,
each once and in order, except where the semicolon is the last token and a comment is left open
behind it. So all of them are handed over exactly if none of them is closed there.
-/
theorem parse_calls {β : Type} [NetworkBuilder β] (names : NameTable) (builder : β)
    (text : String) :
    let s := TokenStream.ofText text
    let r := parse names builder text
    r.calls = r.callsFor ((r.closedEarly s).filter fun d => !s.runsIntoComment d.2) ∧
      (r.calls = r.callsFor (r.closedEarly s) ↔
        ∀ d ∈ r.closedEarly s, s.runsIntoComment d.2 = true → r.isFree d.1 = false) := by
  intro s r
  have hcalls : r.calls =
      r.callsFor ((r.closedEarly s).filter fun d => !s.runsIntoComment d.2) := by
    have hsteps := Progress.calls_steps (Progress.start builder) r.names.idFor
      (Outline.devices_first s)
    have htracks := Progress.tracks_steps (Progress.tracks_start builder) r.names.idFor
      (Outline.ofStream s).items
    have hfirst : r.firstBlocking = Item.firstBlocking (Outline.ofStream s).items :=
      Progress.firstBlocking_steps (Progress.start builder) r.names.idFor _
    have hbuildable : Item.buildable (Outline.ofStream s).items =
        ((r.closedEarly s).filter fun d => !s.runsIntoComment d.2).map Prod.fst := by
      rw [Outline.buildable_ofStream (TokenStream.ordered_ofText text), ← hfirst,
        TokenStream.inTime, Parsed.closedEarly, List.filter_filter]
      simp only [Bool.and_comm]
      rfl
    have hrejected : (fun id => decide (id ∈
        ((Progress.start builder).steps r.names.idFor (Outline.ofStream s).items).2.rejected)) =
          Event.isRejected r.events := by
      funext id
      rw [Bool.eq_iff_iff, decide_eq_true_iff]
      exact htracks.rejected id
    rw [hrejected, hbuildable] at hsteps
    exact hsteps
  refine ⟨hcalls, ?_⟩
  rw [hcalls, Parsed.callsFor_filter_eq_iff]
  simp only [Bool.not_eq_false']

set_option maxRecDepth 2000 in
/-- The last declaration of a text is lost if a comment is left open behind its semicolon. -/
theorem parse_loses_declaration :
    let text := "DEVICES SWITCH,0=A; #"
    let builder : Scripted := ⟨[], [], [], true⟩
    let s := TokenStream.ofText text
    let r := parse .empty builder text
    let d : Declaration := .device ⟨⟨"SWITCH", ⟨1, 9⟩⟩, some ⟨0, ⟨1, 16⟩⟩, ⟨"A", ⟨1, 18⟩⟩⟩
    r.closedEarly s = [(d, ⟨1, 19⟩)] ∧ r.firstBlocking = some ⟨1, 21⟩ ∧
      r.callsFor (r.closedEarly s) = [d.call r.names.idFor] ∧ r.calls = [] := by
  intro text builder s r d
  have hdeclarations : s.declarations = [(d, ⟨1, 19⟩)] := by
    unfold s text d
    cbv
  have hfirst : r.firstBlocking = some ⟨1, 21⟩ := by
    unfold r builder text
    cbv
  have hcalls : r.calls = [] := by
    unfold r builder text
    cbv
  have hearly : r.closedEarly s = [(d, ⟨1, 19⟩)] := by
    rw [Parsed.closedEarly, hdeclarations, hfirst]
    rfl
  refine ⟨hearly, hfirst, ?_, hcalls⟩
  rw [hearly]
  rfl

end LogicNet
