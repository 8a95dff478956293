import LogicNet.Proofs.Representation

/-!
# A circuit under other numbers

The devices of a circuit are known by the numbers of their names. If each of these numbers gives way
to another one, and no two to the same, what is left is the same circuit in all but the numbers of
its devices (`Circuit.renamed`). Types and pins have numbers too, and those it keeps.

Such a circuit answers like the one that it comes from. A call has to be put in other words for it:
its devices have their new numbers, its type is one that the catalogue takes for the same, and a pin
is the same pin, or another one that no device has either (`Call.Renames`). Then both circuits take
the call or both refuse it, for the same cause, and afterwards one is again the other under new
numbers (`Circuit.answer_renamed`).
-/

namespace LogicNet

/-! ## New numbers -/

section Renamed

variable (f : NameId → NameId)

def Signal.renamed (s : Signal) : Signal := { s with device := f s.device }

def Input.renamed (i : Input) : Input := { i with source := i.source.map (Signal.renamed f) }

def Device.renamed (d : Device) : Device :=
  { d with id := f d.id, inputs := d.inputs.map (Input.renamed f) }

/-- The circuit with other numbers for its devices, wherever they stand. -/
def Circuit.renamed (c : Circuit) : Circuit where
  devices := c.devices.map (Device.renamed f)
  index := c.index.map fun entry => (f entry.1, entry.2)
  monitors := c.monitors.map (Signal.renamed f)
  connectionCount := c.connectionCount
  catalogue := c.catalogue

end Renamed

variable {f : NameId → NameId} {pin : Option NameId}

theorem Signal.renamed_inj (hf : f.Injective) {s s' : Signal} :
    s.renamed f = s'.renamed f ↔ s = s' := by
  obtain ⟨device, pin⟩ := s
  obtain ⟨device', pin'⟩ := s'
  simp [renamed, hf.eq_iff]

namespace Device

variable {d : Device}

theorem hasInput_renamed : (d.renamed f).hasInput pin = d.hasInput pin := by
  cases pin with
  | none => rfl
  | some p => simp only [hasInput, renamed, List.any_map]; rfl

theorem role_renamed : (d.renamed f).role pin = d.role pin := by
  simp only [role, hasInput_renamed]
  rfl

theorem source?_renamed (p : NameId) :
    (d.renamed f).source? p = (d.source? p).map (Signal.renamed f) := by
  simp only [source?, renamed, List.find?_map]
  have hpin : ((fun i : Input => i.pin == p) ∘ Input.renamed f) = fun i => i.pin == p := rfl
  rw [hpin]
  cases d.inputs.find? fun i => i.pin == p <;> rfl

theorem isDriven_renamed : (d.renamed f).isDriven = d.isDriven := by
  simp [isDriven, renamed, Input.renamed, List.all_map, Function.comp_def]

theorem drive_renamed (p : NameId) (source : Signal) :
    (d.renamed f).drive p (source.renamed f) = (d.drive p source).renamed f := by
  simp only [drive, renamed, List.map_map]
  congr 1
  refine List.map_congr_left fun i _ => ?_
  by_cases hi : i.pin = p <;> simp [Input.renamed, hi]

end Device

namespace Circuit

variable {c : Circuit} {d : Device} {id : NameId}

theorem lookup_index_renamed (hf : f.Injective) :
    (c.renamed f).index.lookup (f id) = c.index.lookup id := by
  have hindex : (c.renamed f).index = c.index.map fun entry => (f entry.1, entry.2) := rfl
  rw [hindex]
  induction c.index with
  | nil => rfl
  | cons entry index ih =>
      obtain ⟨key, place⟩ := entry
      have hkey : (f id == f key) = (id == key) := by
        rw [Bool.eq_iff_iff, beq_iff_eq, beq_iff_eq, hf.eq_iff]
      simp only [List.map_cons, List.lookup_cons, hkey, ih]

theorem device?_renamed (hf : f.Injective) :
    (c.renamed f).device? (f id) = (c.device? id).map (Device.renamed f) := by
  rw [device?, device?, lookup_index_renamed hf]
  cases c.index.lookup id with
  | none => rfl
  | some i => exact List.getElem?_map

theorem mem_of_device? (h : c.device? id = some d) : d ∈ c.devices := by
  obtain ⟨i, -, hi⟩ := Option.bind_eq_some_iff.mp h
  exact List.mem_of_getElem? hi

theorem isConnected_renamed : (c.renamed f).isConnected = c.isConnected := by
  simp only [isConnected, renamed, List.all_map]
  congr 1
  exact funext fun d => Device.isDriven_renamed

/-! ## Pins that are the same -/

/-- No device has the pin. -/
def Lacks (c : Circuit) (pin : Option NameId) : Prop :=
  ∀ d ∈ c.devices, d.hasInput pin = false ∧ d.hasOutput pin = false

/-- Two pins are one, or no device has either of them. -/
def SamePin (c : Circuit) (p q : Option NameId) : Prop := p = q ∨ c.Lacks p ∧ c.Lacks q

variable {p q : Option NameId}

theorem Lacks.role_eq (h : c.Lacks p) (hd : d ∈ c.devices) : d.role p = .absent := by
  obtain ⟨hin, hout⟩ := h d hd
  cases hrole : d.role p with
  | input x =>
      obtain ⟨-, hin'⟩ := Device.role_eq_input_iff.mp hrole
      rw [hin] at hin'
      cases hin'
  | output =>
      obtain ⟨-, hout'⟩ := Device.role_eq_output_iff.mp hrole
      rw [hout] at hout'
      cases hout'
  | absent => rfl

theorem SamePin.role_eq (h : c.SamePin p q) (hd : d ∈ c.devices) : d.role q = d.role p := by
  rcases h with rfl | ⟨hp, hq⟩
  · rfl
  · rw [hp.role_eq hd, hq.role_eq hd]

theorem SamePin.eq_of_output (h : c.SamePin p q) (hd : d ∈ c.devices)
    (hout : d.hasOutput p = true) : q = p := by
  rcases h with rfl | ⟨hp, -⟩
  · rfl
  · rw [(hp d hd).2] at hout
    cases hout

theorem SamePin.hasOutput_eq (h : c.SamePin p q) (hd : d ∈ c.devices) :
    d.hasOutput q = d.hasOutput p := by
  rcases h with rfl | ⟨hp, hq⟩
  · rfl
  · rw [(hp d hd).2, (hq d hd).2]

/-! ## Answers -/

theorem addDevice_renamed (hf : f.Injective) {kind kind' : NameId}
    (hkind : c.catalogue.kind? kind' = c.catalogue.kind? kind) (qualifier : Option Int) :
    (c.renamed f).addDevice (f id) kind' qualifier =
      (c.addDevice id kind qualifier).map (Circuit.renamed f) := by
  have hcatalogue : (c.renamed f).catalogue = c.catalogue := rfl
  simp only [addDevice, lookup_index_renamed hf, hcatalogue, hkind]
  split
  · rfl
  · cases c.catalogue.kind? kind with
    | none => rfl
    | some k =>
        simp only [Catalogue.device]
        cases k.qualifierRule.check qualifier with
        | error e => rfl
        | ok =>
            simp [bind, Except.bind, pure, Except.pure, Except.map, renamed, Device.renamed,
              Input.renamed, Function.comp_def]

theorem drive_renamed (hf : f.Injective) (p : NameId) (source : Signal) :
    (c.renamed f).drive (d.renamed f) p (source.renamed f) =
      (c.drive d p source).map (Circuit.renamed f) := by
  simp only [drive, Device.source?_renamed]
  cases d.source? p with
  | some _ => rfl
  | none =>
      have hdevice : ∀ e : Device,
          (if (e.renamed f).id = (d.renamed f).id then (e.renamed f).drive p (source.renamed f)
            else e.renamed f) = (if e.id = d.id then e.drive p source else e).renamed f := by
        intro e
        have hid : (e.renamed f).id = (d.renamed f).id ↔ e.id = d.id := hf.eq_iff
        by_cases h : e.id = d.id
        · rw [if_pos h, if_pos (hid.mpr h), Device.drive_renamed]
        · rw [if_neg h, if_neg (mt hid.mp h)]
      simp [Except.map, renamed, Function.comp_def, hdevice]

theorem connect_renamed (hf : f.Injective) {first second : NameId}
    {firstPin firstPin' secondPin secondPin' : Option NameId}
    (hfirst : c.SamePin firstPin firstPin') (hsecond : c.SamePin secondPin secondPin') :
    (c.renamed f).connect (f first) firstPin' (f second) secondPin' =
      (c.connect first firstPin second secondPin).map (Circuit.renamed f) := by
  simp only [connect, device?_renamed hf]
  cases hd : c.device? first with
  | none => rfl
  | some d =>
      cases he : c.device? second with
      | none => rfl
      | some e =>
          simp only [Option.map_some, Device.role_renamed, hfirst.role_eq (mem_of_device? hd),
            hsecond.role_eq (mem_of_device? he)]
          cases hrole : d.role firstPin with
          | input x =>
              cases hrole' : e.role secondPin with
              | output =>
                  have hout := (Device.role_eq_output_iff.mp hrole').2
                  rw [hsecond.eq_of_output (mem_of_device? he) hout]
                  exact drive_renamed hf x ⟨second, secondPin⟩
              | input | absent => rfl
          | output =>
              have hout := (Device.role_eq_output_iff.mp hrole).2
              cases e.role secondPin with
              | input y =>
                  rw [hfirst.eq_of_output (mem_of_device? hd) hout]
                  exact drive_renamed hf y ⟨first, firstPin⟩
              | output | absent => rfl
          | absent => cases e.role secondPin <;> rfl

theorem addMonitor_renamed (hf : f.Injective) {pin pin' : Option NameId}
    (hpin : c.SamePin pin pin') :
    (c.renamed f).addMonitor (f id) pin' = (c.addMonitor id pin).map (Circuit.renamed f) := by
  simp only [addMonitor, device?_renamed hf]
  cases hd : c.device? id with
  | none => rfl
  | some d =>
      have hmem := mem_of_device? hd
      have hsame : (d.renamed f).hasOutput pin' = d.hasOutput pin :=
        hpin.hasOutput_eq (d := d) hmem
      simp only [Option.map_some, hsame]
      cases hout : d.hasOutput pin with
      | false => rfl
      | true =>
          obtain rfl := hpin.eq_of_output hmem hout
          have hwatched : (⟨f id, pin'⟩ : Signal) ∈ (c.renamed f).monitors ↔
              ⟨id, pin'⟩ ∈ c.monitors := by
            have hsignal : (⟨f id, pin'⟩ : Signal) = Signal.renamed f ⟨id, pin'⟩ := rfl
            rw [hsignal]
            exact List.mem_map_of_injective fun _ _ => (Signal.renamed_inj hf).mp
          by_cases h : (⟨id, pin'⟩ : Signal) ∈ c.monitors
          · rw [if_pos h, if_pos (hwatched.mpr h)]
            rfl
          · rw [if_neg h, if_neg (mt hwatched.mp h)]
            simp [Except.map, renamed, Signal.renamed]

end Circuit

/-- A call in the words of a circuit whose devices have other numbers. -/
inductive Call.Renames (f : NameId → NameId) (c : Circuit) : Call → Call → Prop
  | device {name kind kind' : NameId} {qualifier : Option Int}
      (hkind : c.catalogue.kind? kind' = c.catalogue.kind? kind) :
      Renames f c (.device name kind qualifier) (.device (f name) kind' qualifier)
  | connection {outDevice inDevice : NameId} {outPin outPin' inPin inPin' : Option NameId}
      (hout : c.SamePin outPin outPin') (hin : c.SamePin inPin inPin') :
      Renames f c (.connection outDevice outPin inDevice inPin)
        (.connection (f outDevice) outPin' (f inDevice) inPin')
  | monitor {device : NameId} {pin pin' : Option NameId} (hpin : c.SamePin pin pin') :
      Renames f c (.monitor device pin) (.monitor (f device) pin')

namespace Circuit

variable {c : Circuit} {call call' : Call}

/-- **A circuit answers alike under other numbers**, and stays the same but for them. -/
theorem answer_renamed (hf : f.Injective) (h : call.Renames f c call') :
    NetworkBuilder.answer (c.renamed f) call' =
      ((NetworkBuilder.answer c call).1, (NetworkBuilder.answer c call).2.renamed f) := by
  have hreply : ∀ {ε : Type} (kind : ε → ErrorKind) {x x' : Except ε Circuit},
      x' = x.map (Circuit.renamed f) →
      (refusal? kind (replyOf (c.renamed f) x').1, (replyOf (c.renamed f) x').2) =
        (refusal? kind (replyOf c x).1, (replyOf c x).2.renamed f) := by
    rintro ε kind x _ rfl
    cases x <;> rfl
  cases h with
  | device hkind => exact hreply _ (addDevice_renamed hf hkind _)
  | connection hout hin => exact hreply _ (connect_renamed hf hout hin)
  | monitor hpin => exact hreply _ (addMonitor_renamed hf hpin)

end Circuit

/-- The rejected devices are the same but for their numbers. -/
theorem Call.rejectedAfter_renamed {c : Circuit} {call call' : Call} (hf : f.Injective)
    (h : call.Renames f c call') (rejected : List NameId) (refusal : Option ErrorKind) :
    call'.rejectedAfter (rejected.map f) refusal = (call.rejectedAfter rejected refusal).map f := by
  cases h with
  | @device name _ _ _ =>
      cases refusal with
      | none =>
          simp only [rejectedAfter, List.filter_map]
          congr 1
          refine List.filter_congr fun id _ => ?_
          rw [Function.comp_apply, Bool.eq_iff_iff, bne_iff_ne, bne_iff_ne, hf.ne_iff]
      | some kind =>
          simp only [rejectedAfter]
          split <;> rfl
  | connection | monitor => rfl

end LogicNet
