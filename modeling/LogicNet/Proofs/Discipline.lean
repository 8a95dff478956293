import LogicNet.Proofs.History
import LogicNet.Proofs.Findings

/-!
# The discipline of building

Whatever a text says and whatever the builder answers, building keeps two rules.

The first is about order: the devices come first, then the connections, then at most one check for
completeness, and the monitors come last. It holds because the blocks are read in that order, each
at most once, and because recovery finds nothing but faults.

The second is about what may happen at all, given the events so far: nothing is handed over behind
a fault that leaves the rest of the file in doubt, nor if it refers to a rejected device, and the
check is made only as long as nothing was wrong.
-/

namespace LogicNet

/-! ## The stages of building -/

/-- The stages of building, in order. -/
inductive Stage where
  | devices
  | connections
  | check
  | monitors
deriving DecidableEq

/-- The stage that a call belongs to. -/
def Call.stage : Call → Stage
  | .device .. => .devices
  | .connection .. => .connections
  | .monitor .. => .monitors

/-- The stage that an event belongs to. A diagnostic belongs to none. -/
def Event.stage? : Event → Option Stage
  | .called call _ => some call.stage
  | .checked _ => some .check
  | .reported _ => none

/-- The stage in which a declaration is handed over. -/
def Declaration.stage : Declaration → Stage
  | .device _ => .devices
  | .connection _ => .connections
  | .monitor _ => .monitors

/-- The stage that an item can lead to. -/
def Item.stage? : Item → Option Stage
  | .declared d => some d.stage
  | .closed .connections _ => some .check
  | .opened _ | .closed .devices _ | .closed .monitor _ | .fault _ _ => none

/-- The stage in which the declarations of a block are handed over. -/
def Block.stage : Block → Stage
  | .devices => .devices
  | .connections => .connections
  | .monitor => .monitors

/-- What the end of a block can lead to. -/
def Block.endStages : Block → List Stage
  | .connections => [.check]
  | .devices | .monitor => []

theorem Declaration.stage_call (ids : String → NameId) (d : Declaration) :
    (d.call ids).stage = d.stage := by
  cases d <;> rfl

theorem Block.Declares.stage_eq {b : Block} {d : Declaration} {ts : List Token}
    (h : b.Declares d ts) : d.stage = b.stage := by
  cases h <;> rfl

/-- A block leads to the stages of its kind, if to any. -/
theorem Block.Found.exists_stages {b : Block} {items : List Item} (h : b.Found items) :
    ∃ n, (items.filterMap Item.stage?).Sublist (List.replicate n b.stage ++ b.endStages) := by
  cases h with
  | missing => exact ⟨0, List.nil_sublist _⟩
  | @entered ds last hds =>
      have hdeclared : (ds.map Item.declared).filterMap Item.stage? =
          List.replicate ds.length b.stage := by
        rw [List.filterMap_map, List.eq_replicate_iff]
        refine ⟨by simp [Function.comp_def, Item.stage?], fun stage hstage => ?_⟩
        obtain ⟨d, hd, heq⟩ := List.mem_filterMap.mp hstage
        obtain ⟨ts, hts⟩ := hds d hd
        exact (Option.some.inj heq).symm.trans hts.stage_eq
      have hclosed : ((last.toList.map (Item.closed b)).filterMap Item.stage?).Sublist
          b.endStages := by
        cases last with
        | none => exact List.nil_sublist _
        | some t => cases b <;> exact List.Sublist.refl _
      refine ⟨ds.length, ?_⟩
      rw [List.filterMap_cons_none rfl, List.filterMap_append, hdeclared]
      exact (List.Sublist.refl _).append hclosed

/-- **A file is read stage by stage**, whatever it says. -/
theorem Outline.exists_stages_ofStream (s : TokenStream) :
    ∃ devices connections monitors : Nat,
      ((ofStream s).items.filterMap Item.stage?).Sublist
        (List.replicate devices .devices ++ List.replicate connections .connections ++ [.check] ++
          List.replicate monitors .monitors) := by
  have hfound := findings_ofStream s
  rw [← Item.filterMap_findings (fun _ _ => rfl)]
  generalize Item.findings (ofStream s).items = items at hfound ⊢
  rw [Block.all] at hfound
  obtain - | @⟨_, _, devices, _, hdevices, hfound⟩ := hfound
  obtain - | @⟨_, _, connections, _, hconnections, hfound⟩ := hfound
  obtain - | @⟨_, _, monitors, _, hmonitors, hfound⟩ := hfound
  cases hfound
  obtain ⟨d, hdevices⟩ := hdevices.exists_stages
  obtain ⟨c, hconnections⟩ := hconnections.exists_stages
  obtain ⟨m, hmonitors⟩ := hmonitors.exists_stages
  refine ⟨d, c, m, ?_⟩
  have hall := hdevices.append (hconnections.append hmonitors)
  simpa [Block.endStages, Block.stage] using hall

/-! ## What may happen, given what has happened -/

/-- The devices that a call refers to. The device that it makes is none of them. -/
def Call.refersTo : Call → List NameId
  | .device .. => []
  | .connection outDevice _ inDevice _ => [outDevice, inDevice]
  | .monitor id _ => [id]

theorem Declaration.refersTo_call (ids : String → NameId) (d : Declaration) :
    (d.call ids).refersTo = d.refersTo.map fun w => ids w.text := by
  cases d <;> rfl

namespace Event

/-- What an event asks of the events before it. -/
def Allowed (past : List Event) : Event → Prop
  | .called call _ =>
    (∀ error symbol, .reported ⟨.syntactic error, symbol⟩ ∈ past →
      error = .extraSemicolon ∨ error = .incompleteNetwork) ∧
    ∀ id ∈ call.refersTo, isRejected past id = false
  | .checked _ => diagnostics past = []
  | .reported _ => True

/-- Each event is allowed, given those before it, of which `past` are the first. -/
def Lawful : List Event → List Event → Prop
  | _, [] => True
  | past, e :: es => e.Allowed past ∧ Lawful (past ++ [e]) es

theorem Lawful.append {past as bs : List Event} (has : Lawful past as)
    (hbs : Lawful (past ++ as) bs) : Lawful past (as ++ bs) := by
  induction as generalizing past with
  | nil => rwa [List.append_nil] at hbs
  | cons a as ih =>
      rw [List.append_cons] at hbs
      exact ⟨has.1, ih has.2 hbs⟩

theorem Lawful.allowed {past before after : List Event} {e : Event}
    (h : Lawful past (before ++ e :: after)) : e.Allowed (past ++ before) := by
  induction before generalizing past with
  | nil => simpa using h.1
  | cons b before ih =>
      rw [List.append_cons]
      exact ih h.2

end Event

namespace Progress

variable {β : Type} {ids : String → NameId} {p : Progress β} {past : List Event}

/-- Building goes on as long as no fault left the rest of the file in doubt. -/
theorem Tracks.harmless (h : p.Tracks past) (hopen : p.blocked = false) {error : SyntaxError}
    {symbol : Symbol} (hmem : .reported ⟨.syntactic error, symbol⟩ ∈ past) :
    error = .extraSemicolon ∨ error = .incompleteNetwork := by
  rw [h.blocked, List.any_eq_false] at hopen
  have hd : ⟨.syntactic error, symbol⟩ ∈ Event.diagnostics past :=
    List.mem_filterMap.mpr ⟨_, hmem, rfl⟩
  have hkind := hopen _ hd
  cases error <;> simp [ErrorKind.blocksBuilding, SyntaxError.blocksBuilding] at hkind ⊢

theorem Tracks.allowed_call (h : p.Tracks past) (hopen : p.blocked = false) {d : Declaration}
    (hfree : d.isFree ids (· ∈ p.rejected) = true) (refusal : Option ErrorKind) :
    (Event.called (d.call ids) refusal).Allowed past := by
  refine ⟨fun error symbol => h.harmless hopen, ?_⟩
  intro id hid
  rw [d.refersTo_call] at hid
  obtain ⟨w, hw, rfl⟩ := List.mem_map.mp hid
  have hout : ids w.text ∉ p.rejected := by simpa using List.all_eq_true.mp hfree w hw
  rwa [h.rejected, Bool.not_eq_true] at hout

variable [NetworkBuilder β]

/-- **Each step is lawful**, and keeps to the stage of its item. -/
theorem lawful_step (h : p.Tracks past) (ids : String → NameId) (item : Item) :
    Event.Lawful past (p.step ids item).1 ∧
      ((p.step ids item).1.filterMap Event.stage?).Sublist item.stage?.toList := by
  cases item with
  | opened b => exact ⟨trivial, List.nil_sublist _⟩
  | fault error symbol => exact ⟨⟨trivial, trivial⟩, List.nil_sublist _⟩
  | declared d =>
      by_cases hblocked : p.blocked = true
      · rw [step, if_pos hblocked]
        exact ⟨trivial, List.nil_sublist _⟩
      · have hopen : p.blocked = false := Bool.not_eq_true _ ▸ hblocked
        rw [step, if_neg hblocked]
        rcases p.declare_cases ids d with
          ⟨-, hd⟩ | ⟨hfree, ⟨b, -, hd⟩ | ⟨b, kind, symbol, -, -, hd⟩⟩
        · rw [hd]
          exact ⟨trivial, List.nil_sublist _⟩
        · rw [hd]
          refine ⟨⟨h.allowed_call hopen hfree none, trivial⟩, ?_⟩
          simp [Event.stage?, Item.stage?, d.stage_call]
        · rw [hd]
          refine ⟨⟨h.allowed_call hopen hfree (some kind), trivial, trivial⟩, ?_⟩
          simp [Event.stage?, Item.stage?, d.stage_call]
  | closed b last =>
      by_cases hcheck : b = .connections ∧ p.errors = 0
      · -- the check is made, and nothing was wrong before
        obtain ⟨rfl, herrors⟩ := hcheck
        have hclean : Event.diagnostics past = [] :=
          List.length_eq_zero_iff.mp (h.errors ▸ herrors)
        rw [step, if_pos ⟨rfl, herrors⟩, check]
        split
        · exact ⟨⟨hclean, trivial⟩, List.Sublist.refl _⟩
        · exact ⟨⟨hclean, trivial, trivial⟩, List.Sublist.refl _⟩
      · rw [step, if_neg hcheck]
        exact ⟨trivial, List.nil_sublist _⟩

/-- **A run is lawful**, and goes through the stages of its items. -/
theorem lawful_steps (h : p.Tracks past) (ids : String → NameId) (items : List Item) :
    Event.Lawful past (p.steps ids items).1 ∧
      ((p.steps ids items).1.filterMap Event.stage?).Sublist (items.filterMap Item.stage?) := by
  induction items generalizing p past with
  | nil => exact ⟨trivial, List.Sublist.refl _⟩
  | cons item items ih =>
      obtain ⟨hlaw, hstage⟩ := lawful_step h ids item
      obtain ⟨hlaws, hstages⟩ := ih (tracks_step h ids item)
      refine ⟨hlaw.append hlaws, ?_⟩
      have hitems : (item :: items).filterMap Item.stage? =
          item.stage?.toList ++ items.filterMap Item.stage? := by
        cases hs : item.stage? <;> simp [hs]
      rw [steps, List.filterMap_append, hitems]
      exact hstage.append hstages

end Progress

/--
**Building is disciplined, whatever a text says and whatever the builder answers.** All devices are
handed over before all connections; behind them the builder is asked at most once whether it is
complete; the monitors come last. Nothing is handed over behind a fault of form other than a surplus
semicolon or an open input, and nothing that refers to a rejected device. The builder is asked
whether it is complete only if there is no diagnostic so far.
-/
theorem parse_disciplined {β : Type} [NetworkBuilder β] (names : NameTable) (builder : β)
    (text : String) :
    let r := parse names builder text
    (∃ devices connections checks monitors : Nat, checks ≤ 1 ∧
      r.events.filterMap Event.stage? =
        List.replicate devices .devices ++ List.replicate connections .connections ++
          List.replicate checks .check ++ List.replicate monitors .monitors) ∧
    ∀ before event after, r.events = before ++ event :: after → event.Allowed before := by
  intro r
  obtain ⟨hlaw, hstages⟩ := Progress.lawful_steps (Progress.tracks_start builder) r.names.idFor
    (Outline.ofStream (.ofText text)).items
  refine ⟨?_, ?_⟩
  · obtain ⟨d, c, m, hitems⟩ := Outline.exists_stages_ofStream (.ofText text)
    have hsub := hstages.trans hitems
    -- a part of a list of stages in order is a list of stages in order
    simp only [← List.replicate_one, List.sublist_append_iff, List.sublist_replicate_iff] at hsub
    obtain ⟨_, _, hevents, ⟨_, _, rfl, ⟨_, _, rfl, ⟨d', -, rfl⟩, ⟨c', -, rfl⟩⟩, ⟨k', hk, rfl⟩⟩,
      ⟨m', -, rfl⟩⟩ := hsub
    exact ⟨d', c', k', m', hk, hevents⟩
  · intro before event after hevents
    have hall : Event.Lawful [] (before ++ event :: after) := hevents ▸ hlaw
    exact hall.allowed

end LogicNet
