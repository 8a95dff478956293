import LogicNet.Network.Scripted
import LogicNet.Proofs.History
import LogicNet.Proofs.Sentence

/-!
# What a builder is asked while a file of good form is parsed

The declarations of a sentence are handed over block by block: first all devices, then the
connections and the monitors that refer to no rejected device. Which devices are rejected is settled
by the answers about the devices, since nothing that comes later is an answer about one. Between
the connections and the monitors the builder is asked whether the network is complete, unless a
call was refused before.

Each block is one induction over its declarations, `Progress.handsOver_steps`; what decides that a
declaration is handed over is kept from one declaration to the next.
-/

namespace LogicNet

open Text (Position)

variable {β : Type} [NetworkBuilder β] {ids : String → NameId}

/--
Declarations handed to a builder one after the other, what is seen of it, and the builder
afterwards. A call that is refused is reported at once, at the symbol that is to blame.
-/
inductive HandsOver (ids : String → NameId) : β → List Declaration → List Event → β → Prop
  | nil {b : β} : HandsOver ids b [] [] b
  | taken {b next last : β} {d : Declaration} {ds : List Declaration} {es : List Event} :
      NetworkBuilder.answer b (d.call ids) = (none, next) → HandsOver ids next ds es last →
      HandsOver ids b (d :: ds) (.called (d.call ids) none :: es) last
  | refused {b next last : β} {d : Declaration} {ds : List Declaration} {es : List Event}
      {kind : ErrorKind} {symbol : Symbol} :
      NetworkBuilder.answer b (d.call ids) = (some kind, next) → d.Blames kind symbol →
      HandsOver ids next ds es last →
      HandsOver ids b (d :: ds)
        (.called (d.call ids) (some kind) :: .reported ⟨kind, symbol⟩ :: es) last

/-- What is seen of the check for completeness, where the connections end at `last`. -/
def completeness (complete : Bool) (last : Position) : List Event :=
  if complete then [.checked true]
  else [.checked false,
    .reported ⟨.syntactic .incompleteNetwork, .token ⟨.keyword .endBlock, last⟩⟩]

/-- What is seen while a sentence is handed to a builder, and the builder afterwards. -/
inductive Sentence.HandsOver (s : Sentence) (ids : String → NameId) (b : β) :
    List Event → β → Prop
  | intro {devices connections monitors : List Event} {b₁ b₂ b₃ : β} :
      LogicNet.HandsOver ids b (s.devices.map .device) devices b₁ →
      LogicNet.HandsOver ids b₁
        ((s.connections.map .connection).filter (·.isFree ids (Event.isRejected devices)))
        connections b₂ →
      LogicNet.HandsOver ids b₂
        ((s.monitors.map .monitor).filter (·.isFree ids (Event.isRejected devices))) monitors b₃ →
      HandsOver s ids b
        (devices ++ connections ++
          (if (devices ++ connections).any Event.isRefusal then []
            else completeness (NetworkBuilder.isComplete b₂) s.connectionsEnd) ++ monitors) b₃

/-- There is a diagnostic for each refusal, and no other. -/
theorem HandsOver.diagnostics_eq_nil_iff {b last : β} {ds : List Declaration} {es : List Event}
    (h : HandsOver ids b ds es last) :
    Event.diagnostics es = [] ↔ es.any Event.isRefusal = false := by
  induction h with
  | nil => simp [Event.diagnostics]
  | taken _ _ ih => simpa [Event.diagnostics, Event.diagnostic?, Event.isRefusal] using ih
  | refused _ _ _ _ => simp [Event.diagnostics, Event.diagnostic?, Event.isRefusal]

theorem Declaration.Blames.not_blocksBuilding {d : Declaration} {kind : ErrorKind} {symbol : Symbol}
    (h : d.Blames kind symbol) : kind.blocksBuilding = false := by
  cases h <;> rfl

theorem Declaration.rejectedAfter_call {d : Declaration} (h : ∀ x, d ≠ .device x)
    {rejected : List NameId} (refusal : Option ErrorKind) :
    (d.call ids).rejectedAfter rejected refusal = rejected := by
  cases d with
  | device x => exact absurd rfl (h x)
  | connection x => rfl
  | monitor x => rfl

namespace Progress

theorem handsOver_declare {p : Progress β} {d : Declaration}
    (hfree : d.isFree ids (· ∈ p.rejected) = true) {ds : List Declaration} {es : List Event}
    {last : β} (h : HandsOver ids (p.declare ids d).2.builder ds es last) :
    HandsOver ids p.builder (d :: ds) ((p.declare ids d).1 ++ es) last := by
  rcases p.declare_cases ids d with
    ⟨hskip, -⟩ | ⟨-, ⟨b, hb, hd⟩ | ⟨b, kind, symbol, hb, hblame, hd⟩⟩
  · -- what is passed over refers to a rejected device
    rw [hskip] at hfree
    exact absurd hfree (by simp)
  · rw [hd] at h ⊢
    exact .taken hb h
  · rw [hd] at h ⊢
    exact .refused hb hblame h

/-- What the network refuses does not stop the building. -/
theorem blocked_declare {p : Progress β} (d : Declaration) :
    (p.declare ids d).2.blocked = p.blocked := by
  rcases p.declare_cases ids d with ⟨-, hd⟩ | ⟨-, ⟨b, -, hd⟩ | ⟨b, kind, symbol, -, hblame, hd⟩⟩
  · rw [hd]
  · rw [hd]
  · rw [hd]
    simp [note, hblame.not_blocksBuilding]

/-- Only devices change which devices are rejected. -/
theorem rejected_declare {p : Progress β} {d : Declaration} (h : ∀ x, d ≠ .device x) :
    (p.declare ids d).2.rejected = p.rejected := by
  rcases p.declare_cases ids d with ⟨-, hd⟩ | ⟨-, ⟨b, -, hd⟩ | ⟨b, kind, symbol, -, -, hd⟩⟩
  · rw [hd]
  · rw [hd]
    exact Declaration.rejectedAfter_call h none
  · rw [hd]
    exact Declaration.rejectedAfter_call h (some kind)

/--
**A block of declarations is handed over**, but for those that are not free. Which are free may not
change meanwhile: that is what the invariant `I` is for.
-/
theorem handsOver_steps (free : Declaration → Bool) (I : Progress β → Prop)
    {ds : List Declaration}
    (hfree : ∀ q, I q → ∀ d ∈ ds, d.isFree ids (· ∈ q.rejected) = free d)
    (hkeep : ∀ q, I q → ∀ d ∈ ds, I (q.declare ids d).2)
    {p : Progress β} (hI : I p) (hopen : p.blocked = false) :
    HandsOver ids p.builder (ds.filter free) (p.steps ids (ds.map .declared)).1
        (p.steps ids (ds.map .declared)).2.builder ∧
      (p.steps ids (ds.map .declared)).2.blocked = false ∧
      I (p.steps ids (ds.map .declared)).2 := by
  induction ds generalizing p with
  | nil => exact ⟨.nil, hopen, hI⟩
  | cons d ds ih =>
      have hd := List.mem_cons_self (a := d) (l := ds)
      have hds : ∀ x ∈ ds, x ∈ d :: ds := fun x hx => List.mem_cons_of_mem d hx
      obtain ⟨hrest, hopen', hI'⟩ := ih (fun q hq x hx => hfree q hq x (hds x hx))
        (fun q hq x hx => hkeep q hq x (hds x hx)) (hkeep p hI d hd)
        ((blocked_declare d).trans hopen)
      -- as long as nothing blocks the building, the step is to hand over
      have hstep : p.step ids (.declared d) = p.declare ids d := by
        simp [step, hopen]
      rw [List.map_cons, steps, hstep]
      refine ⟨?_, hopen', hI'⟩
      by_cases hf : free d = true
      · rw [List.filter_cons_of_pos hf]
        rw [← hfree p hI d hd] at hf
        exact handsOver_declare hf hrest
      · -- what is not free is passed over
        rw [List.filter_cons_of_neg hf]
        rw [← hfree p hI d hd] at hf
        rcases p.declare_cases ids d with ⟨-, hskip⟩ | ⟨hfree', -⟩
        · rw [hskip] at hrest ⊢
          exact hrest
        · exact absurd hfree' hf

theorem handsOver_devices (ids : String → NameId) (ds : List DeviceDecl) {p : Progress β}
    (hopen : p.blocked = false) :
    HandsOver ids p.builder (ds.map .device) (p.steps ids ((ds.map .device).map .declared)).1
        (p.steps ids ((ds.map .device).map .declared)).2.builder ∧
      (p.steps ids ((ds.map .device).map .declared)).2.blocked = false := by
  have hfree : ∀ q : Progress β, True → ∀ d ∈ ds.map Declaration.device,
      d.isFree ids (· ∈ q.rejected) = true := by
    intro q _ d hd
    obtain ⟨x, -, rfl⟩ := List.mem_map.mp hd
    rfl
  obtain ⟨hrun, hopen', -⟩ := handsOver_steps (fun _ => true) (fun _ => True) hfree
    (fun _ _ _ _ => trivial) trivial hopen
  rw [List.filter_eq_self.mpr (fun _ _ => rfl)] at hrun
  exact ⟨hrun, hopen'⟩

/-- Declarations other than devices are handed over if they refer to no rejected device. -/
theorem handsOver_referring (ids : String → NameId) {ds : List Declaration}
    (hds : ∀ d ∈ ds, ∀ x, d ≠ .device x) {rejected : NameId → Bool} {p : Progress β}
    (hrejected : ∀ id, id ∈ p.rejected ↔ rejected id = true) (hopen : p.blocked = false) :
    HandsOver ids p.builder (ds.filter (·.isFree ids rejected))
        (p.steps ids (ds.map .declared)).1 (p.steps ids (ds.map .declared)).2.builder ∧
      (p.steps ids (ds.map .declared)).2.blocked = false ∧
      (p.steps ids (ds.map .declared)).2.rejected = p.rejected := by
  have hfun : (fun id => decide (id ∈ p.rejected)) = rejected := by
    funext id
    rw [Bool.eq_iff_iff, decide_eq_true_iff]
    exact hrejected id
  apply handsOver_steps _ (fun q => q.rejected = p.rejected) _ _ rfl hopen
  · intro q hq d _
    rw [hq, hfun]
  · intro q hq d hd
    exact (rejected_declare (hds d hd)).trans hq

theorem steps_blockItems (p : Progress β) (b : Block) (ds : List Declaration) (last : Position) :
    p.steps ids (Sentence.blockItems b ds last) =
      ((p.steps ids (ds.map .declared)).1 ++
          ((p.steps ids (ds.map .declared)).2.step ids (.closed b ⟨.keyword .endBlock, last⟩)).1,
        ((p.steps ids (ds.map .declared)).2.step ids
          (.closed b ⟨.keyword .endBlock, last⟩)).2) := by
  have hopened : p.step ids (.opened b) = ([], p) := rfl
  rw [Sentence.blockItems, steps, hopened, List.nil_append, steps_append]
  simp only [steps, List.append_nil]

theorem step_closed_of_ne (p : Progress β) {b : Block} (h : b ≠ .connections) (last : Token) :
    p.step ids (.closed b last) = ([], p) := by
  simp [step, h]

/-- At the end of the connections the builder is asked whether it is complete, if it is clean. -/
theorem step_closed_connections (p : Progress β) (ids : String → NameId) (last : Position) :
    ∃ next, p.step ids (.closed .connections ⟨.keyword .endBlock, last⟩) =
        (if p.errors = 0 then completeness (NetworkBuilder.isComplete p.builder) last else [],
          next) ∧
      next.builder = p.builder ∧ next.blocked = p.blocked ∧ next.rejected = p.rejected := by
  by_cases herrors : p.errors = 0
  · cases hcomplete : NetworkBuilder.isComplete p.builder with
    | true => exact ⟨p, by simp [step, check, completeness, herrors, hcomplete], rfl, rfl, rfl⟩
    | false =>
        refine ⟨p.note (.syntactic .incompleteNetwork), ?_, rfl, ?_, rfl⟩
        · simp [step, check, completeness, herrors, hcomplete]
        · exact Bool.or_false p.blocked
  · exact ⟨p, by simp [step, herrors], rfl, rfl, rfl⟩

end Progress

/-- **A sentence is handed over block by block.** -/
theorem Sentence.handsOver_items (s : Sentence) (ids : String → NameId) (builder : β)
    (devicesEnd monitorEnd : Position) :
    s.HandsOver ids builder
      ((Progress.start builder).steps ids (s.items devicesEnd monitorEnd)).1
      ((Progress.start builder).steps ids (s.items devicesEnd monitorEnd)).2.builder := by
  rw [items, Progress.steps_append, Progress.steps_append, Progress.steps_blockItems,
    Progress.step_closed_of_ne _ (by simp), List.append_nil]
  -- the devices
  have hopen : (Progress.start builder).blocked = false := rfl
  have hdevices := Progress.handsOver_devices ids s.devices hopen
  have htracks := Progress.tracks_steps (Progress.tracks_start builder) ids
    ((s.devices.map Declaration.device).map .declared)
  generalize (Progress.start builder).steps ids ((s.devices.map Declaration.device).map .declared) =
    run at hdevices htracks ⊢
  obtain ⟨devices, p₁⟩ := run
  obtain ⟨hdevices, hopen₁⟩ := hdevices
  simp only [List.nil_append] at htracks
  -- the connections
  have hnoDevice : ∀ d ∈ s.connections.map Declaration.connection, ∀ x, d ≠ .device x := by simp
  have hconnections := Progress.handsOver_referring ids hnoDevice htracks.rejected hopen₁
  have htracks₂ := Progress.tracks_steps htracks ids
    ((s.connections.map Declaration.connection).map .declared)
  rw [Progress.steps_blockItems]
  generalize p₁.steps ids ((s.connections.map Declaration.connection).map .declared) =
    run at hconnections htracks₂ ⊢
  obtain ⟨connections, p₂⟩ := run
  obtain ⟨hconnections, hopen₂, hrejected₂⟩ := hconnections
  -- the check, which is made only if there was no refusal
  have hgate : p₂.errors = 0 ↔ ¬ (devices ++ connections).any Event.isRefusal = true := by
    rw [htracks₂.errors, List.length_eq_zero_iff, Event.diagnostics_append,
      List.append_eq_nil_iff, hdevices.diagnostics_eq_nil_iff, hconnections.diagnostics_eq_nil_iff,
      List.any_append, ← Bool.or_eq_false_iff, Bool.not_eq_true]
  obtain ⟨p₃, hcheck, hbuilder₃, hopen₃, hrejected₃⟩ :=
    p₂.step_closed_connections ids s.connectionsEnd
  rw [hcheck]
  -- the monitors
  have hnoDevice : ∀ d ∈ s.monitors.map Declaration.monitor, ∀ x, d ≠ .device x := by simp
  have hrejected : ∀ id, id ∈ p₃.rejected ↔ Event.isRejected devices id = true := by
    rw [hrejected₃, hrejected₂]
    exact htracks.rejected
  obtain ⟨hmonitors, -, -⟩ := Progress.handsOver_referring ids hnoDevice hrejected
    (hopen₃.trans hopen₂)
  rw [Progress.steps_blockItems, Progress.step_closed_of_ne _ (by simp), List.append_nil]
  rw [hbuilder₃] at hmonitors
  have hall := Sentence.HandsOver.intro hdevices hconnections hmonitors
  simp only [hgate, ite_not]
  rw [← List.append_assoc devices]
  exact hall

/--
**A file of good form is handed over declaration by declaration**, whatever the builder answers.
All devices are; then the connections that refer to no rejected device; then, if no call was
refused, the builder is asked once whether it is complete; then the monitors that refer to no
rejected device. A refusal is reported where it happens, and open inputs at the `END` of the
connections. The numbers in the calls are those of the names as they are written.
-/
theorem parse_handsOver (names : NameTable) (builder : β) {text : String} {s : Sentence}
    {ts : List Token} (hs : s.Says ts) (htext : (TokenStream.ofText text).BeginsWith ts) :
    let r := parse names builder text
    s.HandsOver r.names.idFor builder r.events r.builder ∧
      ∀ d ∈ s.declarations, ∀ w ∈ d.words,
        r.names.lookup? (r.names.idFor w.text) = some w.text := by
  obtain ⟨devicesEnd, monitorEnd, mainEnd, hparse⟩ := hs.parse_eq
  rw [hparse names builder text htext]
  refine ⟨s.handsOver_items _ builder devicesEnd monitorEnd, ?_⟩
  intro d hd w hw
  exact NameTable.lookup?_idFor (hs.mem_forFile hd hw names)

set_option maxRecDepth 2000 in
/-- A device is refused, and what refers to it is passed over. -/
theorem handsOver_refused_device :
    let text := "DEVICES X=A; END CONNECTIONS A-A.B; END MONITOR A; END MAIN_END ;"
    let s : Sentence :=
      ⟨[⟨⟨"X", ⟨1, 9⟩⟩, none, ⟨"A", ⟨1, 11⟩⟩⟩],
        [⟨⟨"A", ⟨1, 30⟩⟩, none, ⟨"A", ⟨1, 32⟩⟩, ⟨"B", ⟨1, 34⟩⟩⟩], ⟨1, 37⟩,
        [⟨⟨"A", ⟨1, 49⟩⟩, none⟩]⟩
    let builder : Scripted := ⟨[some .badDevice], [], [], true⟩
    let r := parse .empty builder text
    (∃ ts, s.Says ts ∧ (TokenStream.ofText text).BeginsWith ts) ∧
      s.HandsOver r.names.idFor builder r.events r.builder ∧ r.errorCount = 1 := by
  intro text s builder r
  have hitems : (Outline.ofStream (.ofText text)).items = s.items ⟨1, 14⟩ ⟨1, 52⟩ := by
    unfold text s
    cbv
  obtain ⟨ts, hs, htext⟩ := Sentence.says_of_items hitems
  have hcount : r.errorCount = 1 := by
    unfold r builder text
    cbv
  exact ⟨⟨ts, hs, htext⟩, (parse_handsOver .empty builder hs htext).1, hcount⟩

end LogicNet
