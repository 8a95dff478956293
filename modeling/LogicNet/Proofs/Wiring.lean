import LogicNet.Proofs.Meaning
import Mathlib.Data.List.Nodup

/-!
# Each declaration extends the circuit as it should

The circuit of some parts, connected and watched, takes one more declaration exactly if that fits
together with the others, and is then the circuit of the parts with the new declaration added last.
There is one such statement for a device, one for a connection and one for a monitor.

All of them rest on the same fact: a name that was entered in the table shares its number with no
other name, so that looking up a number among the devices or the pins is looking up its name.
-/

namespace LogicNet

/-! ## Names and numbers -/

namespace NameTable

/-- The names that a catalogue needs are entered. -/
def HasVocabulary (t : NameTable) : Prop := ∀ name ∈ Catalogue.vocabulary, name ∈ t.names

/-- Looking up a number finds what has its name. -/
theorem find?_idFor_eq_some_iff {t : NameTable} {α : Type} {name : α → String} {xs : List α}
    (h : ∀ a ∈ xs, name a ∈ t.names) (hinj : ∀ a ∈ xs, ∀ b ∈ xs, name a = name b → a = b)
    {x : String} {a : α} :
    xs.find? (fun b => t.idFor (name b) == t.idFor x) = some a ↔ a ∈ xs ∧ name a = x := by
  refine ⟨?_, ?_⟩
  · intro hfind
    have ha := List.mem_of_find?_eq_some hfind
    have heq := List.find?_some hfind
    rw [beq_iff_eq, idFor_inj (h a ha)] at heq
    exact ⟨ha, heq⟩
  · intro ha
    obtain ⟨ha, rfl⟩ := ha
    cases hfind : xs.find? (fun b => t.idFor (name b) == t.idFor (name a)) with
    | none => exact absurd (List.find?_eq_none.mp hfind a ha) (by simp)
    | some b =>
        have hb := List.mem_of_find?_eq_some hfind
        have heq := List.find?_some hfind
        rw [beq_iff_eq, idFor_inj (h b hb)] at heq
        rw [hinj b hb a ha heq]

end NameTable

/-! ## Pins -/

/-- The signal of a pin that was entered is that of no other pin. -/
theorem Pin.signal_inj {t : NameTable} {p q : Pin} (hdevice : p.device ∈ t.names)
    (hlabel : ∀ l ∈ p.label, l ∈ t.names) : p.signal t = q.signal t ↔ p = q := by
  obtain ⟨device, label⟩ := p
  obtain ⟨device', label'⟩ := q
  simp only [signal, Signal.mk.injEq, Pin.mk.injEq, NameTable.idFor_inj hdevice]
  apply and_congr_right
  intro _
  cases label with
  | none => cases label' <;> simp
  | some l =>
      have hinj : ∀ l', t.idFor l = t.idFor l' ↔ l = l' := fun l' =>
        NameTable.idFor_inj (hlabel l rfl)
      cases label' <;> simp [hinj]

namespace Part

variable {t : NameTable} {p : Part} {f g : Pin → Option Pin} {label : Option String} {x : String}

theorem inputLabels_subset (p : Part) : p.inputLabels ⊆ Catalogue.vocabulary := by
  have hgate : gateInputLabels ⊆ Catalogue.vocabulary := by decide
  have hflipFlop : flipFlopInputLabels ⊆ Catalogue.vocabulary := by decide
  unfold inputLabels
  cases p.kind with
  | and | nand | or | nor | xor => exact fun l hl => hgate (List.mem_of_mem_take hl)
  | clock | switch => exact List.nil_subset _
  | dtype => exact hflipFlop

theorem mem_vocabulary_of_output (h : some x ∈ p.outputLabels) : x ∈ Catalogue.vocabulary := by
  have hlabels : flipFlopOutputLabels ⊆ Catalogue.vocabulary := by decide
  unfold outputLabels at h
  cases hk : p.kind with
  | and | nand | or | nor | xor | clock | switch => simp [hk] at h
  | dtype =>
      simp only [hk, List.mem_map, Option.some.injEq, exists_eq_right] at h
      exact hlabels h

theorem not_mem_outputLabels (h : x ∈ p.inputLabels) : some x ∉ p.outputLabels := by
  have hflipFlop : ∀ l ∈ flipFlopInputLabels, some l ∉ flipFlopOutputLabels.map some := by decide
  unfold inputLabels at h
  unfold outputLabels
  cases hk : p.kind with
  | and | nand | or | nor | xor | clock | switch => simp
  | dtype =>
      rw [hk] at h
      exact hflipFlop x h

theorem mem_inputs {q : Pin} :
    q ∈ p.inputs ↔ p.name = q.device ∧ ∃ x ∈ p.inputLabels, q.label = some x := by
  obtain ⟨device, label⟩ := q
  simp only [inputs, List.mem_map, Pin.mk.injEq]
  grind

theorem mem_outputs {q : Pin} : q ∈ p.outputs ↔ p.name = q.device ∧ q.label ∈ p.outputLabels := by
  obtain ⟨device, label⟩ := q
  simp only [outputs, List.mem_map, Pin.mk.injEq]
  grind

theorem hasInput_device (ht : t.HasVocabulary) :
    (p.device t f).hasInput (label.map t.idFor) = true ↔
      ∃ x ∈ p.inputLabels, label = some x := by
  cases label with
  | none => simp [Device.hasInput]
  | some x =>
      -- the number of a label among the inputs is that of no other label
      simp only [Device.hasInput, device, Option.map_some, List.any_map, List.any_eq_true,
        Function.comp, beq_iff_eq]
      refine ⟨?_, ?_⟩
      · intro h
        obtain ⟨y, hy, heq⟩ := h
        obtain rfl := (NameTable.idFor_inj (ht y (p.inputLabels_subset hy))).mp heq
        exact ⟨y, hy, rfl⟩
      · intro h
        obtain ⟨y, hy, heq⟩ := h
        obtain rfl := Option.some.inj heq
        exact ⟨x, hy, rfl⟩

theorem hasOutput_device (ht : t.HasVocabulary) :
    (p.device t f).hasOutput (label.map t.idFor) = true ↔ label ∈ p.outputLabels := by
  simp only [Device.hasOutput, device, List.contains_iff_mem, List.mem_map]
  refine ⟨?_, fun h => ⟨label, h, rfl⟩⟩
  intro h
  obtain ⟨other, hother, heq⟩ := h
  cases other with
  | none =>
      cases label with
      | none => exact hother
      | some x => exact absurd heq (by simp)
  | some y =>
      cases label with
      | none => exact absurd heq (by simp)
      | some x =>
          have hy := ht y (mem_vocabulary_of_output hother)
          obtain rfl := (NameTable.idFor_inj hy).mp (Option.some.inj heq)
          exact hother

theorem role_device_input (ht : t.HasVocabulary) {pin : NameId} :
    (p.device t f).role (label.map t.idFor) = .input pin ↔
      ∃ x ∈ p.inputLabels, label = some x ∧ pin = t.idFor x := by
  rw [Device.role_eq_input_iff, hasInput_device ht]
  grind

theorem role_device_output (ht : t.HasVocabulary) :
    (p.device t f).role (label.map t.idFor) = .output ↔ label ∈ p.outputLabels := by
  rw [Device.role_eq_output_iff, hasOutput_device ht]
  refine ⟨And.right, fun h => ⟨?_, h⟩⟩
  rw [Bool.eq_false_iff, Ne, hasInput_device ht]
  intro hinput
  obtain ⟨x, hx, rfl⟩ := hinput
  exact not_mem_outputLabels hx h

theorem source?_device (ht : t.HasVocabulary) (hx : x ∈ p.inputLabels) :
    (p.device t f).source? (t.idFor x) = (f ⟨p.name, some x⟩).map (Pin.signal t) := by
  have hlabels : ∀ l ∈ p.inputLabels, l ∈ t.names := fun l hl => ht l (p.inputLabels_subset hl)
  have hfind : p.inputLabels.find? (fun l => t.idFor l == t.idFor x) = some x :=
    (NameTable.find?_idFor_eq_some_iff hlabels fun _ _ _ _ heq => heq).mpr ⟨hx, rfl⟩
  simp only [Device.source?, device, List.find?_map]
  unfold Function.comp
  rw [hfind]
  rfl

/-- An input that is driven is driven in the part, and the others are as they were. -/
theorem drive_device (ht : t.HasVocabulary) {o : Pin} (hx : g ⟨p.name, some x⟩ = some o)
    (hrest : ∀ q ∈ p.inputs, q ≠ ⟨p.name, some x⟩ → g q = f q) :
    (p.device t f).drive (t.idFor x) (o.signal t) = p.device t g := by
  simp only [Device.drive, device, List.map_map, Device.mk.injEq, true_and, and_true]
  apply List.map_congr_left
  intro l hl
  have hinj := NameTable.idFor_inj (y := x) (ht l (p.inputLabels_subset hl))
  by_cases hlx : l = x
  · subst hlx
    simp [hx]
  · have hq : (⟨p.name, some l⟩ : Pin) ∈ p.inputs := List.mem_map_of_mem hl
    have hkeep := hrest _ hq (by simp [hlx])
    simp [hinj, hlx, hkeep]

/-- A part whose inputs are driven alike is the same device. -/
theorem device_congr (h : ∀ q ∈ p.inputs, f q = g q) : p.device t f = p.device t g := by
  unfold device
  congr 1
  apply List.map_congr_left
  intro l hl
  rw [h _ (List.mem_map_of_mem hl)]

end Part

/-! ## Circuits of parts -/

/-- The names of the parts are entered, and no two of them are the same. -/
structure NameTable.Names (t : NameTable) (parts : List Part) : Prop where
  vocabulary : t.HasVocabulary
  entered : ∀ p ∈ parts, p.name ∈ t.names
  nodup : (parts.map Part.name).Nodup

namespace NameTable.Names

variable {t : NameTable} {parts : List Part}

theorem eq_of_name_eq (h : t.Names parts) {p q : Part} (hp : p ∈ parts) (hq : q ∈ parts)
    (heq : p.name = q.name) : p = q :=
  List.inj_on_of_nodup_map h.nodup hp hq heq

theorem mem_outputs_iff (h : t.Names parts) {p : Part} (hp : p ∈ parts) {q : Pin}
    (hname : p.name = q.device) :
    q ∈ parts.flatMap Part.outputs ↔ q.label ∈ p.outputLabels := by
  rw [List.mem_flatMap]
  refine ⟨?_, fun hlabel => ⟨p, hp, Part.mem_outputs.mpr ⟨hname, hlabel⟩⟩⟩
  intro hout
  obtain ⟨p', hp', hout⟩ := hout
  obtain ⟨hname', hlabel⟩ := Part.mem_outputs.mp hout
  obtain rfl := h.eq_of_name_eq hp hp' (hname.trans hname'.symm)
  exact hlabel

theorem not_mem_outputs (h : t.Names parts) {i : Pin} (hi : i ∈ parts.flatMap Part.inputs) :
    i ∉ parts.flatMap Part.outputs := by
  obtain ⟨p, hp, hi⟩ := List.mem_flatMap.mp hi
  obtain ⟨x, hx, rfl⟩ := List.mem_map.mp hi
  rw [h.mem_outputs_iff hp rfl]
  exact Part.not_mem_outputLabels hx

end NameTable.Names

namespace Circuit

/-- A circuit is started over a table that holds the vocabulary. -/
theorem start_eq (names : NameTable) : ∃ t, t.HasVocabulary ∧ start names = (t, empty t) := by
  refine ⟨names.internAll Catalogue.vocabulary, ?_, by rw [start]⟩
  intro name hname
  exact NameTable.mem_names_internAll.mpr (.inr hname)

variable {t : NameTable} {parts : List Part} {cs : List ConnectionDecl} {ms : List MonitorDecl}

/-- An index of distinct names tells where each of them stands. -/
theorem lookup_zipIdx_eq_some_iff {ids : List NameId} (h : ids.Nodup) {id : NameId} {i : Nat} :
    ids.zipIdx.lookup id = some i ↔ ids[i]? = some id := by
  have hfound : ∀ j, ids.zipIdx.lookup id = some j → ids[j]? = some id := by
    intro j hj
    obtain ⟨xs, ys, heq, -⟩ := List.lookup_eq_some_iff.mp hj
    have hmem : (id, j) ∈ ids.zipIdx := by simp [heq]
    exact List.mem_zipIdx_iff_getElem?.mp hmem
  refine ⟨hfound i, ?_⟩
  intro hi
  have hsome : (ids.zipIdx.lookup id).isSome = true :=
    List.lookup_isSome_iff.mpr ⟨(id, i), List.mem_zipIdx_iff_getElem?.mpr hi, beq_self_eq_true id⟩
  obtain ⟨j, hj⟩ := Option.isSome_iff_exists.mp hsome
  -- a name that stood in two places would not be distinct from the others
  obtain ⟨hlt, -⟩ := List.getElem?_eq_some_iff.mp hi
  obtain rfl := (List.getElem?_inj hlt h).mp (hi.trans (hfound j hj).symm)
  exact hj

theorem isSome_lookup_zipIdx_iff {ids : List NameId} {id : NameId} :
    (ids.zipIdx.lookup id).isSome = true ↔ id ∈ ids := by
  rw [List.lookup_isSome_iff]
  refine ⟨?_, ?_⟩
  · intro h
    obtain ⟨⟨other, i⟩, hmem, heq⟩ := h
    obtain rfl := eq_of_beq heq
    exact List.mem_of_getElem? (List.mem_zipIdx_iff_getElem?.mp hmem)
  · intro h
    obtain ⟨i, hi⟩ := List.mem_iff_getElem?.mp h
    exact ⟨(id, i), List.mem_zipIdx_iff_getElem?.mpr hi, beq_self_eq_true id⟩

/-- Looking up a device finds the part of its name. -/
theorem device?_ofParts (h : t.Names parts) {x : String} {d : Device} :
    (ofParts t parts cs ms).device? (t.idFor x) = some d ↔
      ∃ p ∈ parts, p.name = x ∧ p.device t (sourceIn? cs) = d := by
  have hids : (parts.map fun p => t.idFor p.name).Nodup := by
    apply (h.nodup.of_map Part.name).map_on
    intro p hp q hq heq
    exact h.eq_of_name_eq hp hq ((NameTable.idFor_inj (h.entered p hp)).mp heq)
  rw [device?, ofParts, Option.bind_eq_some_iff]
  simp only [lookup_zipIdx_eq_some_iff hids, List.getElem?_map, Option.map_eq_some_iff]
  refine ⟨?_, ?_⟩
  · intro hd
    obtain ⟨i, ⟨p, hp, hname⟩, q, hq, hd⟩ := hd
    obtain rfl := Option.some.inj (hp.symm.trans hq)
    have hmem := List.mem_of_getElem? hp
    exact ⟨p, hmem, (NameTable.idFor_inj (h.entered p hmem)).mp hname, hd⟩
  · intro hd
    obtain ⟨p, hp, rfl, hd⟩ := hd
    obtain ⟨i, hi⟩ := List.mem_iff_getElem?.mp hp
    exact ⟨i, ⟨p, hi, rfl⟩, p, hi, hd⟩

/-! ### Connections -/

/-- An output is let drive an input: what that needs, and the circuit afterwards. -/
def Wires (c : Circuit) (i o : Signal) (next : Circuit) : Prop :=
  ∃ d e pin, c.device? i.device = some d ∧ d.role i.pin = .input pin ∧
    c.device? o.device = some e ∧ e.role o.pin = .output ∧ c.drive d pin o = .ok next

/-- A connection is taken if one of its ends can drive the other. -/
theorem connect_eq_ok_iff {c : Circuit} {p q : Signal} {next : Circuit} :
    c.connect p.device p.pin q.device q.pin = .ok next ↔ c.Wires p q next ∨ c.Wires q p next := by
  unfold connect Wires
  cases hd : c.device? p.device with
  | none => simp
  | some d =>
      cases he : c.device? q.device with
      | none => simp
      | some e => cases hp : d.role p.pin <;> cases hq : e.role q.pin <;> simp [hp, hq]

theorem drive_eq_ok_iff {c : Circuit} {d : Device} {pin : NameId} {source : Signal}
    {next : Circuit} :
    c.drive d pin source = .ok next ↔ d.source? pin = none ∧
      { c with
        devices := c.devices.map fun e => if e.id = d.id then e.drive pin source else e
        connectionCount := c.connectionCount + 1 } = next := by
  unfold drive
  cases d.source? pin <;> simp

theorem sourceIn?_concat {d : ConnectionDecl} {i o : Pin} (hd : d.Joins i o)
    (hi : sourceIn? cs i = none) : sourceIn? (cs ++ [d]) i = some o := by
  have hend : d.otherEnd? i = some o := by
    unfold ConnectionDecl.otherEnd?
    rcases hd with ⟨rfl, rfl⟩ | ⟨rfl, rfl⟩
    · rw [if_pos rfl]
    · split
      · -- both ends are the same pin
        next heq => rw [heq]
      · rw [if_pos rfl]
  unfold sourceIn? at hi ⊢
  simp [hi, hend]

theorem sourceIn?_concat_of_ne {d : ConnectionDecl} {i o q : Pin} (hd : d.Joins i o)
    (hi : q ≠ i) (ho : q ≠ o) : sourceIn? (cs ++ [d]) q = sourceIn? cs q := by
  have hend := ConnectionDecl.otherEnd?_eq_none_iff.mpr (hd.names_eq_false hi ho)
  unfold sourceIn?
  simp [hend]

/-- An input of a part is driven from the other end of a connection, if it is not driven yet. -/
theorem drive_ofParts (h : t.Names parts) {p : Part} {x : String}
    (hx : x ∈ p.inputLabels) {d : ConnectionDecl} {o : Pin} (hd : d.Joins ⟨p.name, some x⟩ o)
    (ho : o ∈ parts.flatMap Part.outputs) {next : Circuit} :
    (ofParts t parts cs ms).drive (p.device t (sourceIn? cs)) (t.idFor x) (o.signal t) = .ok next ↔
      sourceIn? cs ⟨p.name, some x⟩ = none ∧ next = ofParts t parts (cs ++ [d]) ms := by
  rw [drive_eq_ok_iff, Part.source?_device h.vocabulary hx, Option.map_eq_none_iff,
    @eq_comm _ _ next]
  apply and_congr_right
  intro hfree
  have hdevices : (parts.map (Part.device t (sourceIn? cs))).map (fun e =>
      if e.id = (p.device t (sourceIn? cs)).id then e.drive (t.idFor x) (o.signal t) else e) =
        parts.map (Part.device t (sourceIn? (cs ++ [d]))) := by
    rw [List.map_map]
    apply List.map_congr_left
    intro q hq
    -- an input of any part but the one that is driven is as it was
    have hkeep : ∀ pin ∈ q.inputs, pin ≠ ⟨p.name, some x⟩ →
        sourceIn? (cs ++ [d]) pin = sourceIn? cs pin := by
      intro pin hpin hne
      apply sourceIn?_concat_of_ne hd hne
      intro heq
      subst heq
      exact h.not_mem_outputs (List.mem_flatMap.mpr ⟨q, hq, hpin⟩) ho
    have hids : (q.device t (sourceIn? cs)).id = (p.device t (sourceIn? cs)).id ↔
        q.name = p.name := NameTable.idFor_inj (h.entered q hq)
    by_cases hname : q.name = p.name
    · -- the device that the input belongs to
      rw [Function.comp, if_pos (hids.mpr hname)]
      rw [← hname] at hkeep hfree hd
      exact Part.drive_device h.vocabulary (sourceIn?_concat hd hfree) hkeep
    · rw [Function.comp, if_neg fun heq => hname (hids.mp heq)]
      apply Part.device_congr
      intro pin hpin
      refine (hkeep pin hpin ?_).symm
      intro heq
      subst heq
      exact hname (Part.mem_inputs.mp hpin).1
  simp only [ofParts, hdevices, List.length_append, List.length_singleton]

theorem wires_ofParts (h : t.Names parts) {d : ConnectionDecl} {i o : Pin} (hd : d.Joins i o)
    {next : Circuit} :
    (ofParts t parts cs ms).Wires (i.signal t) (o.signal t) next ↔
      i ∈ parts.flatMap Part.inputs ∧ o ∈ parts.flatMap Part.outputs ∧ sourceIn? cs i = none ∧
        next = ofParts t parts (cs ++ [d]) ms := by
  refine ⟨?_, ?_⟩
  · intro hwires
    obtain ⟨_, _, pin, hdevice, hin, hother, hout, hdrive⟩ := hwires
    obtain ⟨device, label⟩ := i
    obtain ⟨p, hp, rfl, rfl⟩ := (device?_ofParts h).mp hdevice
    obtain ⟨q, hq, hqname, rfl⟩ := (device?_ofParts h).mp hother
    obtain ⟨x, hx, rfl, rfl⟩ := (Part.role_device_input h.vocabulary).mp hin
    have ho : o ∈ parts.flatMap Part.outputs :=
      (h.mem_outputs_iff hq hqname).mpr ((Part.role_device_output h.vocabulary).mp hout)
    obtain ⟨hfree, hnext⟩ := (drive_ofParts h hx hd ho).mp hdrive
    exact ⟨List.mem_flatMap.mpr ⟨p, hp, List.mem_map_of_mem hx⟩, ho, hfree, hnext⟩
  · intro hjoined
    obtain ⟨hi, ho, hfree, hnext⟩ := hjoined
    obtain ⟨p, hp, hin⟩ := List.mem_flatMap.mp hi
    obtain ⟨x, hx, rfl⟩ := List.mem_map.mp hin
    obtain ⟨q, hq, hout⟩ := List.mem_flatMap.mp ho
    obtain ⟨hqname, hlabel⟩ := Part.mem_outputs.mp hout
    exact ⟨_, _, t.idFor x, (device?_ofParts h).mpr ⟨p, hp, rfl, rfl⟩,
      (Part.role_device_input h.vocabulary).mpr ⟨x, hx, rfl, rfl⟩,
      (device?_ofParts h).mpr ⟨q, hq, hqname, rfl⟩,
      (Part.role_device_output h.vocabulary).mpr hlabel,
      (drive_ofParts h hx hd ho).mpr ⟨hfree, hnext⟩⟩

/-- **A connection is taken if it joins an input that is not driven yet and an output.** -/
theorem connect_ofParts (h : t.Names parts) {d : ConnectionDecl} {next : Circuit} :
    (ofParts t parts cs ms).connect (d.first.signal t).device (d.first.signal t).pin
        (d.second.signal t).device (d.second.signal t).pin = .ok next ↔
      (∃ i ∈ parts.flatMap Part.inputs, ∃ o ∈ parts.flatMap Part.outputs,
        d.Joins i o ∧ sourceIn? cs i = none) ∧ next = ofParts t parts (cs ++ [d]) ms := by
  rw [connect_eq_ok_iff, wires_ofParts h (.inl ⟨rfl, rfl⟩), wires_ofParts h (.inr ⟨rfl, rfl⟩)]
  refine ⟨?_, ?_⟩
  · intro hwires
    rcases hwires with ⟨hi, ho, hfree, hnext⟩ | ⟨hi, ho, hfree, hnext⟩
    · exact ⟨⟨_, hi, _, ho, .inl ⟨rfl, rfl⟩, hfree⟩, hnext⟩
    · exact ⟨⟨_, hi, _, ho, .inr ⟨rfl, rfl⟩, hfree⟩, hnext⟩
  · intro hjoins
    obtain ⟨⟨i, hi, o, ho, hd, hfree⟩, hnext⟩ := hjoins
    rcases hd with ⟨rfl, rfl⟩ | ⟨rfl, rfl⟩
    · exact .inl ⟨hi, ho, hfree, hnext⟩
    · exact .inr ⟨hi, ho, hfree, hnext⟩

/-! ### Devices -/

theorem isSome_lookup_ofParts (hentered : ∀ p ∈ parts, p.name ∈ t.names) {x : String} :
    ((ofParts t parts cs ms).index.lookup (t.idFor x)).isSome = true ↔ x ∈ parts.map Part.name := by
  have hid : ∀ p ∈ parts, t.idFor p.name = t.idFor x ↔ p.name = x :=
    fun p hp => NameTable.idFor_inj (hentered p hp)
  rw [ofParts, isSome_lookup_zipIdx_iff]
  simp only [List.mem_map]
  grind

end Circuit

namespace Catalogue

variable {t : NameTable}

theorem spelling_mem_vocabulary (kind : DeviceKind) : kind.spelling ∈ vocabulary := by
  cases kind <;> decide

/-- A catalogue depends only on the numbers of its vocabulary. -/
theorem ofNames_congr {t t' : NameTable} (h : ∀ name ∈ vocabulary, t.idFor name = t'.idFor name) :
    ofNames t = ofNames t' := by
  have hgate : gateInputLabels ⊆ vocabulary := by decide
  have hinputs : flipFlopInputLabels ⊆ vocabulary := by decide
  have houtputs : flipFlopOutputLabels ⊆ vocabulary := by decide
  simp only [ofNames, mk.injEq]
  refine ⟨?_, ?_, ?_, ?_⟩
  · apply List.map_congr_left
    intro kind _
    rw [h _ (spelling_mem_vocabulary kind)]
  · exact List.map_congr_left fun l hl => h l (hgate hl)
  · exact List.map_congr_left fun l hl => h l (hinputs hl)
  · exact List.map_congr_left fun l hl => h l (houtputs hl)

theorem kind?_ofNames (ht : t.HasVocabulary) (x : String) :
    (ofNames t).kind? (t.idFor x) = DeviceKind.ofSpelling? x := by
  have hentered : ∀ kind ∈ DeviceKind.all, kind.spelling ∈ t.names :=
    fun kind _ => ht _ (spelling_mem_vocabulary kind)
  have hinj : ∀ k ∈ DeviceKind.all, ∀ l ∈ DeviceKind.all, k.spelling = l.spelling → k = l := by
    decide
  apply Option.ext
  intro kind
  rw [DeviceKind.ofSpelling?_eq_some_iff, kind?, ofNames, List.find?_map, Option.map_map,
    Option.map_eq_some_iff]
  refine ⟨?_, ?_⟩
  · intro hkind
    obtain ⟨k, hfind, rfl⟩ := hkind
    exact ((NameTable.find?_idFor_eq_some_iff hentered hinj).mp hfind).2
  · intro hkind
    exact ⟨kind, (NameTable.find?_idFor_eq_some_iff hentered hinj).mpr ⟨kind.mem_all, hkind⟩, rfl⟩

/-- A device is made if the kind admits the qualifier, and no input of it is driven. -/
theorem device_eq_ok_iff {c : Catalogue} {id : NameId} {kind : DeviceKind}
    {qualifier : Option Int} {d : Device} :
    c.device id kind qualifier = .ok d ↔ kind.qualifierRule.Admits qualifier ∧
      d = ⟨id, kind, qualifier, (c.inputs kind qualifier).map (⟨·, none⟩), c.outputs kind⟩ := by
  rw [← QualifierRule.check_eq_ok_iff, device]
  cases kind.qualifierRule.check qualifier with
  | error e => simp [bind, Except.bind]
  | ok _ => simp [bind, Except.bind, pure, Except.pure, eq_comm]

/-- A new device is a part under some number, with no input driven. -/
theorem device_ofNames {p : Part} {id : NameId} {d : Device} :
    (ofNames t).device id p.kind p.qualifier = .ok d ↔
      p.kind.qualifierRule.Admits p.qualifier ∧
        d = { p.device t (sourceIn? []) with id := id } := by
  have hinputs : ((ofNames t).inputs p.kind p.qualifier).map (⟨·, none⟩) =
      (p.device t (sourceIn? [])).inputs := by
    simp only [Part.device, Part.inputLabels, inputs, ofNames]
    cases p.kind <;> simp [sourceIn?, List.map_take, Function.comp_def]
  have houtputs : (ofNames t).outputs p.kind = (p.device t (sourceIn? [])).outputs := by
    simp only [Part.device, Part.outputLabels, outputs, ofNames]
    cases p.kind <;> simp
  rw [device_eq_ok_iff, hinputs, houtputs]
  rfl

end Catalogue

namespace Circuit

variable {t : NameTable} {parts : List Part} {cs : List ConnectionDecl} {ms : List MonitorDecl}

theorem addDevice_eq_ok_iff {c : Circuit} {id kind : NameId} {qualifier : Option Int}
    {next : Circuit} :
    c.addDevice id kind qualifier = .ok next ↔
      ¬ (c.index.lookup id).isSome = true ∧ ∃ k, c.catalogue.kind? kind = some k ∧
        ∃ d, c.catalogue.device id k qualifier = .ok d ∧
          { c with
            devices := c.devices ++ [d]
            index := c.index ++ [(id, c.devices.length)] } = next := by
  unfold addDevice
  by_cases hold : (c.index.lookup id).isSome = true
  · simp [hold]
  · cases hkind : c.catalogue.kind? kind with
    | none => simp [hold]
    | some k =>
        cases hmade : c.catalogue.device id k qualifier <;>
          simp [hold, hmade, bind, Except.bind, pure, Except.pure]

/-- **A device is taken if its name is new, and it is a part that its qualifier fits.** -/
theorem addDevice_ofParts (ht : t.HasVocabulary) (hentered : ∀ p ∈ parts, p.name ∈ t.names)
    {d : DeviceDecl} {next : Circuit} :
    (ofParts t parts [] ms).addDevice (t.idFor d.name.text) (t.idFor d.kind.text) d.number =
        .ok next ↔
      d.name.text ∉ parts.map Part.name ∧ ∃ p, d.part? = some p ∧
        p.kind.qualifierRule.Admits p.qualifier ∧ next = ofParts t (parts ++ [p]) [] ms := by
  have hkind : (ofParts t parts [] ms).catalogue.kind? (t.idFor d.kind.text) = _ :=
    Catalogue.kind?_ofNames ht d.kind.text
  have hnext : ∀ p : Part, p.name = d.name.text → { ofParts t parts [] ms with
      devices := (ofParts t parts [] ms).devices ++ [p.device t (sourceIn? [])]
      index := (ofParts t parts [] ms).index ++
        [(t.idFor d.name.text, (ofParts t parts [] ms).devices.length)] } =
        ofParts t (parts ++ [p]) [] ms := by
    intro p hp
    simp [ofParts, List.zipIdx_append, hp]
  rw [addDevice_eq_ok_iff, isSome_lookup_ofParts hentered, hkind]
  apply and_congr_right
  intro _
  refine ⟨?_, ?_⟩
  · intro htaken
    obtain ⟨kind, hspelling, device, hmade, rfl⟩ := htaken
    let p : Part := ⟨d.name.text, kind, d.number⟩
    obtain ⟨hadmits, rfl⟩ := (Catalogue.device_ofNames (p := p)).mp hmade
    exact ⟨p, Option.map_eq_some_iff.mpr ⟨kind, hspelling, rfl⟩, hadmits, hnext p rfl⟩
  · intro hfits
    obtain ⟨p, hpart, hadmits, rfl⟩ := hfits
    obtain ⟨kind, hspelling, rfl⟩ := Option.map_eq_some_iff.mp hpart
    let p : Part := ⟨d.name.text, kind, d.number⟩
    exact ⟨kind, hspelling, _, (Catalogue.device_ofNames (p := p)).mpr ⟨hadmits, rfl⟩,
      hnext p rfl⟩

/-! ### Monitors, and the check -/

theorem addMonitor_eq_ok_iff {c : Circuit} {q : Signal} {next : Circuit} :
    c.addMonitor q.device q.pin = .ok next ↔
      ∃ d, c.device? q.device = some d ∧ d.hasOutput q.pin = true ∧ q ∉ c.monitors ∧
        { c with monitors := c.monitors ++ [q] } = next := by
  unfold addMonitor
  cases hd : c.device? q.device with
  | none => simp
  | some d => cases hout : d.hasOutput q.pin <;> by_cases hm : q ∈ c.monitors <;> simp [hout, hm]

/-- An output is watched as a signal if it is watched as a pin. -/
theorem signal_mem_monitors (h : t.Names parts) {q : Pin} (hq : q ∈ parts.flatMap Part.outputs) :
    q.signal t ∈ (ofParts t parts cs ms).monitors ↔ q ∈ ms.map MonitorDecl.watched := by
  obtain ⟨p, hp, hout⟩ := List.mem_flatMap.mp hq
  obtain ⟨hname, hlabel⟩ := Part.mem_outputs.mp hout
  have hdevice : q.device ∈ t.names := hname ▸ h.entered p hp
  have hpin : ∀ l ∈ q.label, l ∈ t.names := by
    intro l heq
    rw [Option.mem_def.mp heq] at hlabel
    exact h.vocabulary l (Part.mem_vocabulary_of_output hlabel)
  simp only [ofParts, List.mem_map, eq_comm (b := q), eq_comm (b := q.signal t),
    Pin.signal_inj hdevice hpin]

/-- **A monitor is taken if it watches an output that is not watched yet.** -/
theorem addMonitor_ofParts (h : t.Names parts) {d : MonitorDecl} {next : Circuit} :
    (ofParts t parts cs ms).addMonitor (d.watched.signal t).device (d.watched.signal t).pin =
        .ok next ↔
      d.watched ∈ parts.flatMap Part.outputs ∧ d.watched ∉ ms.map MonitorDecl.watched ∧
        next = ofParts t parts cs (ms ++ [d]) := by
  have hnext : { ofParts t parts cs ms with
      monitors := (ofParts t parts cs ms).monitors ++ [d.watched.signal t] } =
        ofParts t parts cs (ms ++ [d]) := by
    simp [ofParts]
  rw [addMonitor_eq_ok_iff, hnext]
  refine ⟨?_, ?_⟩
  · intro htaken
    obtain ⟨_, hdevice, hout, hnew, rfl⟩ := htaken
    obtain ⟨p, hp, hname, rfl⟩ := (device?_ofParts h).mp hdevice
    have hwatched := (h.mem_outputs_iff hp hname).mpr ((Part.hasOutput_device h.vocabulary).mp hout)
    exact ⟨hwatched, mt (signal_mem_monitors h hwatched).mpr hnew, rfl⟩
  · intro hfits
    obtain ⟨hwatched, hnew, rfl⟩ := hfits
    obtain ⟨p, hp, hout⟩ := List.mem_flatMap.mp hwatched
    obtain ⟨hname, hlabel⟩ := Part.mem_outputs.mp hout
    exact ⟨_, (device?_ofParts h).mpr ⟨p, hp, hname, rfl⟩,
      (Part.hasOutput_device h.vocabulary).mpr hlabel,
      mt (signal_mem_monitors h hwatched).mp hnew, rfl⟩

/-- **A circuit is complete if a connection names each input.** -/
theorem isConnected_ofParts :
    (ofParts t parts cs ms).isConnected = true ↔
      ∀ i ∈ parts.flatMap Part.inputs, (sourceIn? cs i).isSome := by
  simp only [isConnected, Device.isDriven, ofParts, Part.device, Part.inputs, List.all_map,
    List.all_eq_true, List.mem_flatMap, List.mem_map, Function.comp, Option.isSome_map]
  grind

end Circuit

end LogicNet
