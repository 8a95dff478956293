import LogicNet.Parse
import LogicNet.Proofs.Course

/-!
# The faults of form that a parse reports

A parse reports faults of form and refusals of the builder in one list. This file takes the faults
of form out of that list and shows that they are those of the outline, whatever the builder answers:
no answer adds a fault, hides one or moves one. Open inputs are reported under the same heading, but
they are a matter of the network and are left out here.
-/

namespace LogicNet

/-- What breaks the form of a file, and the symbol at which it does. -/
abbrev FormFault := SyntaxError × Symbol

/-- The fault of form that a diagnostic reports. Open inputs are none. -/
def Diagnostic.formFault? (d : Diagnostic) : Option FormFault :=
  match d.kind with
  | .syntactic e => if e = .incompleteNetwork then none else some (e, d.anchor)
  | .device _ | .connection _ | .monitor _ => none

/-- The faults of form in a list of diagnostics. -/
def formFaults (ds : List Diagnostic) : List FormFault := ds.filterMap Diagnostic.formFault?

/-- The diagnostics in a list of events. -/
def Event.diagnostics (es : List Event) : List Diagnostic := es.filterMap Event.diagnostic?

/-- The diagnostic that an item leads to, whatever the builder answers. -/
def Item.fault? : Item → Option Diagnostic
  | .fault error symbol => some ⟨.syntactic error, symbol⟩
  | .opened _ | .declared _ | .closed _ _ => none

/-- The faults of form in a list of items. -/
def Item.formFaults (items : List Item) : List FormFault :=
  LogicNet.formFaults (items.filterMap Item.fault?)

@[simp] theorem formFaults_nil : formFaults [] = [] := rfl

@[simp] theorem formFaults_append (as bs : List Diagnostic) :
    formFaults (as ++ bs) = formFaults as ++ formFaults bs := List.filterMap_append

@[simp] theorem Event.diagnostics_append (as bs : List Event) :
    Event.diagnostics (as ++ bs) = Event.diagnostics as ++ Event.diagnostics bs :=
  List.filterMap_append

@[simp] theorem Item.formFaults_nil : Item.formFaults [] = [] := rfl

@[simp] theorem Item.formFaults_append (as bs : List Item) :
    Item.formFaults (as ++ bs) = Item.formFaults as ++ Item.formFaults bs := by
  simp [Item.formFaults]

theorem Item.formFaults_cons (a : Item) (as : List Item) :
    Item.formFaults (a :: as) = Item.formFaults [a] ++ Item.formFaults as :=
  Item.formFaults_append [a] as

theorem Item.formFaults_eq_nil {items : List Item} (h : ∀ item ∈ items, item.fault? = none) :
    Item.formFaults items = [] := by
  have hnone : items.filterMap Item.fault? = [] := List.filterMap_eq_nil_iff.mpr h
  rw [Item.formFaults, hnone, LogicNet.formFaults_nil]

/-! ## The builder has no say -/

namespace Progress

variable {β : Type} [NetworkBuilder β] {ids : String → NameId}

theorem formFaults_declare (p : Progress β) (d : Declaration) :
    formFaults (Event.diagnostics (p.declare ids d).1) = [] := by
  cases d with
  | device d =>
      simp only [declare, device]
      split <;> rfl
  | connection d =>
      simp only [declare, connection]
      split
      · rfl
      · split <;> rfl
  | monitor d =>
      simp only [declare, monitor]
      split
      · rfl
      · split <;> rfl

theorem formFaults_step (p : Progress β) (item : Item) :
    formFaults (Event.diagnostics (p.step ids item).1) = Item.formFaults [item] := by
  cases item with
  | opened b => rfl
  | declared d =>
      simp only [step]
      split
      · rfl
      · exact formFaults_declare p d
  | closed b last =>
      simp only [step, check]
      split
      · split <;> rfl
      · rfl
  | fault error symbol => rfl

/-- **The faults of form that a run reports are those of its items.** -/
theorem formFaults_steps (p : Progress β) (items : List Item) :
    formFaults (Event.diagnostics (p.steps ids items).1) = Item.formFaults items := by
  induction items generalizing p with
  | nil => rfl
  | cons item items ih =>
      have hsplit : (p.steps ids (item :: items)).1 =
          (p.step ids item).1 ++ ((p.step ids item).2.steps ids items).1 := rfl
      rw [hsplit, Event.diagnostics_append, formFaults_append, formFaults_step, ih,
        ← Item.formFaults_cons]

end Progress

namespace Parsed

variable {β : Type}

/-- The faults of form that a parse reports. -/
def formFaults (r : Parsed β) : List FormFault := LogicNet.formFaults r.diagnostics

theorem formFaults_parse [NetworkBuilder β] (names : NameTable) (builder : β) (text : String) :
    (parse names builder text).formFaults =
      Item.formFaults (Outline.ofStream (.ofText text)).items :=
  Progress.formFaults_steps _ _

end Parsed

/-! ## The faults of recovery -/

namespace Ending

variable {e : Ending}

/-- The fault that a reader finds behind the last token. -/
theorem formFaults_arrival (ts : List Token) :
    Item.formFaults (e.arrival ts) =
      if ts = [] then
        (e.openComment.map fun p => (SyntaxError.unterminatedComment, Symbol.openComment p)).toList
      else [] := by
  cases ts with
  | nil => cases h : e.openComment <;> simp [arrival, h, Item.formFaults, Item.fault?,
      LogicNet.formFaults, Diagnostic.formFault?]
  | cons t ts => simp [arrival]

end Ending

theorem SyntaxError.InDeclaration.ne_incompleteNetwork {error : SyntaxError}
    (h : error.InDeclaration) : error ≠ .incompleteNetwork := by
  intro heq
  subst heq
  exact absurd h.2 (by decide)

theorem Block.strayError_inDeclaration (b : Block) : b.strayError.InDeclaration := by
  cases b <;> exact ⟨rfl, rfl⟩

theorem Block.missingError_ne_incompleteNetwork (b : Block) :
    b.missingError ≠ .incompleteNetwork := by
  cases b <;> decide

theorem Outline.formFaults_report_ne_nil {e : Ending} {entered : List Block} {error : SyntaxError}
    (h : error ≠ .incompleteNetwork) (ts : List Token) :
    Item.formFaults (report e entered error ts).items ≠ [] := by
  simp [report, Item.formFaults, Item.fault?, LogicNet.formFaults, Diagnostic.formFault?, h]

end LogicNet
