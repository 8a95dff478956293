import LogicNet.Proofs.History
import LogicNet.Proofs.Wiring

/-!
# What holds of a circuit at any time

A circuit is started empty and is then asked to take devices, connections and monitors, in any order
and however wrong they are. Its fields say some things twice: the index repeats the names of the
devices, and the number of connections repeats what the inputs tell. `Circuit.Invariant` says that
the two accounts agree at any time, and that whatever a circuit refers to is there.

`Circuit.Consistent` is the part of it that is carried from call to call; the rest follows. A call
that is refused changes nothing, and one that is taken does one of three things, which
`Circuit.answer_cases` lists. A device adds a name to the index; a connection drives one input and
leaves the pins of all devices as they are; a monitor adds an output that is there.
-/

namespace LogicNet

/-! ## Devices as their kind asks -/

theorem Part.nodup_inputLabels (p : Part) : p.inputLabels.Nodup := by
  have hgate : gateInputLabels.Nodup := by decide
  have hflipFlop : flipFlopInputLabels.Nodup := by decide
  unfold inputLabels
  cases p.kind with
  | and | nand | or | nor | xor => exact hgate.sublist (List.take_sublist _ _)
  | clock | switch => exact List.nodup_nil
  | dtype => exact hflipFlop

namespace Device

/-- The part that a device is. A device whose name was not entered is a part without a name. -/
def part (t : NameTable) (d : Device) : Part := ⟨(t.lookup? d.id).getD "", d.kind, d.qualifier⟩

/-- A device has the qualifier and the pins that its kind asks for. -/
structure Prescribed (t : NameTable) (d : Device) : Prop where
  admits : d.kind.qualifierRule.Admits d.qualifier
  inputs : d.inputs.map (fun i => t.lookup? i.pin) = (d.part t).inputLabels.map some
  outputs : d.outputs.map (Option.map t.lookup?) = (d.part t).outputLabels.map (Option.map some)

/-- Two devices are the same but for what drives their inputs. -/
structure SamePins (d e : Device) : Prop where
  id : d.id = e.id
  kind : d.kind = e.kind
  qualifier : d.qualifier = e.qualifier
  pins : d.inputs.map Input.pin = e.inputs.map Input.pin
  outputs : d.outputs = e.outputs

variable {t : NameTable} {d e : Device} {pin : NameId} {source : Signal}

theorem samePins_drive : (d.drive pin source).SamePins d := ⟨rfl, rfl, rfl, map_pin_drive, rfl⟩

theorem SamePins.refl (d : Device) : d.SamePins d := ⟨rfl, rfl, rfl, rfl, rfl⟩

/-- Where an input of one device is driven, all devices keep their pins. -/
theorem samePins_ite_drive (d e : Device) (pin : NameId) (source : Signal) :
    (if e.id = d.id then e.drive pin source else e).SamePins e := by
  split
  · exact samePins_drive
  · exact .refl e

theorem Prescribed.samePins (h : e.Prescribed t) (hsame : d.SamePins e) : d.Prescribed t := by
  have hpart : d.part t = e.part t := by
    simp only [part, hsame.id, hsame.kind, hsame.qualifier]
  have hinputs : d.inputs.map (fun i => t.lookup? i.pin) =
      e.inputs.map (fun i => t.lookup? i.pin) := by
    have hpins := congrArg (List.map t.lookup?) hsame.pins
    rwa [List.map_map, List.map_map] at hpins
  refine ⟨?_, ?_, ?_⟩
  · rw [hsame.kind, hsame.qualifier]
    exact h.admits
  · rw [hinputs, hpart]
    exact h.inputs
  · rw [hsame.outputs, hpart]
    exact h.outputs

/-- No two inputs of a device have the same name, since their labels differ. -/
theorem Prescribed.nodup_pins (h : d.Prescribed t) : (d.inputs.map Input.pin).Nodup := by
  have hlabels : (d.inputs.map fun i => t.lookup? i.pin).Nodup := by
    rw [h.inputs]
    exact (d.part t).nodup_inputLabels.map fun _ _ => Option.some.inj
  rw [← Function.comp_def, ← List.map_map] at hlabels
  exact hlabels.of_map t.lookup?

/-- An input has one of the labels that its kind asks for. -/
theorem Prescribed.exists_inputLabel (h : d.Prescribed t) {i : Input} (hi : i ∈ d.inputs) :
    ∃ x ∈ (d.part t).inputLabels, t.lookup? i.pin = some x := by
  have hin : t.lookup? i.pin ∈ (d.part t).inputLabels.map some := by
    rw [← h.inputs]
    exact List.mem_map_of_mem hi
  obtain ⟨x, hx, heq⟩ := List.mem_map.mp hin
  exact ⟨x, hx, heq.symm⟩

/-- An output that has a name has one of the labels that its kind asks for. -/
theorem Prescribed.exists_outputLabel (h : d.Prescribed t) (hpin : some pin ∈ d.outputs) :
    ∃ x, some x ∈ (d.part t).outputLabels ∧ t.lookup? pin = some x := by
  have hlabel : some (t.lookup? pin) ∈ (d.part t).outputLabels.map (Option.map some) := by
    rw [← h.outputs]
    exact List.mem_map_of_mem hpin
  obtain ⟨label, hmem, hsome⟩ := List.mem_map.mp hlabel
  obtain ⟨x, rfl, hx⟩ := Option.map_eq_some_iff.mp hsome
  exact ⟨x, hmem, hx.symm⟩

/-- No input of a device is an output too, since its label is none of the output labels. -/
theorem Prescribed.not_mem_outputs (h : d.Prescribed t) {i : Input} (hi : i ∈ d.inputs) :
    some i.pin ∉ d.outputs := by
  intro hout
  obtain ⟨x, hx, hin⟩ := h.exists_inputLabel hi
  obtain ⟨y, hy, hlabel⟩ := h.exists_outputLabel hout
  obtain rfl := Option.some.inj (hin.symm.trans hlabel)
  exact Part.not_mem_outputLabels hx hy

/-- Driving an input that is there and is not driven yet drives one input more. -/
theorem countP_drive (source : Signal) (hnodup : (d.inputs.map Input.pin).Nodup)
    (hpin : d.hasInput (some pin) = true) (hfree : d.source? pin = none) :
    (d.drive pin source).inputs.countP (·.source.isSome) =
      d.inputs.countP (·.source.isSome) + 1 := by
  obtain ⟨i, hi, hip⟩ := List.any_eq_true.mp hpin
  obtain rfl := eq_of_beq hip
  obtain ⟨xs, ys, hsplit⟩ := List.append_of_mem hi
  rw [hsplit, List.map_append, List.map_cons, List.nodup_middle, List.nodup_cons,
    List.mem_append, not_or] at hnodup
  obtain ⟨⟨hxs, hys⟩, -⟩ := hnodup
  have hxs' : ∀ x ∈ xs, x.pin ≠ i.pin := fun x hx heq => hxs (heq ▸ List.mem_map_of_mem hx)
  have hys' : ∀ y ∈ ys, y.pin ≠ i.pin := fun y hy heq => hys (heq ▸ List.mem_map_of_mem hy)
  have hopen : i.source = none := by
    have hfind : d.inputs.find? (·.pin == i.pin) = some i := by
      rw [hsplit, List.find?_append, List.find?_eq_none.mpr (by simpa using hxs')]
      simp
    rwa [source?, hfind, Option.bind_some] at hfree
  -- only the input between the two stretches is another one afterwards
  have hkeep : ∀ zs : List Input, (∀ z ∈ zs, z.pin ≠ i.pin) →
      zs.map (fun j => if j.pin = i.pin then ⟨i.pin, some source⟩ else j) = zs := by
    intro zs hzs
    rw [List.map_congr_left fun z hz => if_neg (hzs z hz), List.map_id']
  simp only [drive, hsplit, List.map_append, List.map_cons, hkeep xs hxs', hkeep ys hys', if_pos,
    List.countP_append, List.countP_cons, Option.isSome_some, hopen, Option.isSome_none]
  simp only [Bool.false_eq_true, if_false]
  omega

end Device

/-! ## The invariant -/

namespace Circuit

/-- The inputs of all devices, in order. -/
def inputs (c : Circuit) : List Input := c.devices.flatMap Device.inputs

/-- A signal is an output of one of the devices. -/
def HasOutput (c : Circuit) (s : Signal) : Prop :=
  ∃ d ∈ c.devices, d.id = s.device ∧ s.pin ∈ d.outputs

/-- The index sends a name to the place of the device of that name. -/
def Indexed (c : Circuit) : Prop :=
  ∀ id i, c.index.lookup id = some i ↔ ∃ d, c.devices[i]? = some d ∧ d.id = id

/-- What is carried from call to call. -/
structure Consistent (t : NameTable) (c : Circuit) : Prop where
  catalogue : c.catalogue = .ofNames t
  indexed : c.Indexed
  prescribed : ∀ d ∈ c.devices, d.Prescribed t
  sources : ∀ i ∈ c.inputs, ∀ s ∈ i.source, c.HasOutput s
  counted : c.connectionCount = c.inputs.countP (·.source.isSome)
  nodup_monitors : c.monitors.Nodup
  watched : ∀ s ∈ c.monitors, c.HasOutput s

/-- What holds of the fields of a circuit at any time. -/
structure Invariant (t : NameTable) (c : Circuit) : Prop where
  indexed : c.Indexed
  nodup_ids : (c.devices.map Device.id).Nodup
  /-- The kind of a device settles its qualifier and its pins. -/
  prescribed : ∀ d ∈ c.devices, d.Prescribed t
  nodup_pins : ∀ d ∈ c.devices, (d.inputs.map Input.pin).Nodup
  not_mem_outputs : ∀ d ∈ c.devices, ∀ i ∈ d.inputs, some i.pin ∉ d.outputs
  sources : ∀ i ∈ c.inputs, ∀ s ∈ i.source, c.HasOutput s
  counted : c.connectionCount = c.inputs.countP (·.source.isSome)
  nodup_monitors : c.monitors.Nodup
  watched : ∀ s ∈ c.monitors, c.HasOutput s
  complete : c.isConnected = true ↔ c.connectionCount = c.inputs.length

variable {t : NameTable} {c next : Circuit}

theorem Indexed.nodup_ids (h : c.Indexed) : (c.devices.map Device.id).Nodup := by
  rw [List.nodup_iff_getElem?_ne_getElem?]
  intro i j hlt hj heq
  rw [List.length_map] at hj
  have hdj : c.devices[j]? = some c.devices[j] := List.getElem?_eq_getElem hj
  have hdi : c.devices[i]? = some c.devices[i] := List.getElem?_eq_getElem (Nat.lt_trans hlt hj)
  rw [List.getElem?_map, List.getElem?_map, hdi, hdj] at heq
  -- the index has one place for the name that the two devices share
  have hplace := (h _ i).mpr ⟨_, hdi, Option.some.inj heq⟩
  rw [(h _ j).mpr ⟨_, hdj, rfl⟩] at hplace
  exact absurd (Option.some.inj hplace) (Nat.ne_of_gt hlt)

theorem Indexed.device?_eq_some_iff (h : c.Indexed) {id : NameId} {d : Device} :
    c.device? id = some d ↔ d ∈ c.devices ∧ d.id = id := by
  rw [device?, Option.bind_eq_some_iff]
  refine ⟨?_, ?_⟩
  · intro hd
    obtain ⟨i, hi, hd⟩ := hd
    obtain ⟨e, he, hid⟩ := (h id i).mp hi
    obtain rfl := Option.some.inj (he.symm.trans hd)
    exact ⟨List.mem_of_getElem? hd, hid⟩
  · intro hd
    obtain ⟨hmem, hid⟩ := hd
    obtain ⟨i, hi⟩ := List.mem_iff_getElem?.mp hmem
    exact ⟨i, (h id i).mpr ⟨d, hi, hid⟩, hi⟩

/-- A signal is an output if its pin is an output of the device of its name. -/
theorem Indexed.hasOutput (h : c.Indexed) {s : Signal} {d : Device}
    (hd : c.device? s.device = some d) (hout : d.hasOutput s.pin = true) : c.HasOutput s := by
  obtain ⟨hmem, hid⟩ := h.device?_eq_some_iff.mp hd
  exact ⟨d, hmem, hid, List.contains_iff_mem.mp hout⟩

/-- All inputs are driven if as many are driven as there are. -/
theorem isConnected_iff_countP :
    c.isConnected = true ↔ c.inputs.countP (·.source.isSome) = c.inputs.length := by
  simp only [List.countP_eq_length, isConnected, Device.isDriven, inputs, List.all_eq_true,
    List.mem_flatMap]
  refine ⟨?_, fun h d hd i hi => h i ⟨d, hd, hi⟩⟩
  intro h i hi
  obtain ⟨d, hd, hi⟩ := hi
  exact h d hd i hi

/-- **What is carried from call to call is all of it.** -/
theorem Consistent.invariant (h : c.Consistent t) : c.Invariant t where
  indexed := h.indexed
  nodup_ids := h.indexed.nodup_ids
  prescribed := h.prescribed
  nodup_pins := fun d hd => (h.prescribed d hd).nodup_pins
  not_mem_outputs := fun d hd _ hi => (h.prescribed d hd).not_mem_outputs hi
  sources := h.sources
  counted := h.counted
  nodup_monitors := h.nodup_monitors
  watched := h.watched
  complete := by rw [isConnected_iff_countP, h.counted]

theorem consistent_empty (t : NameTable) : (empty t).Consistent t where
  catalogue := rfl
  indexed := by simp [Indexed, empty]
  prescribed := by simp [empty]
  sources := by simp [inputs, empty]
  counted := rfl
  nodup_monitors := List.nodup_nil
  watched := by simp [empty]

/-! ## A new device -/

/-- A new device is as its kind asks, and no input of it is driven. -/
theorem prescribed_device (ht : t.HasVocabulary) {id : NameId} {kind : DeviceKind}
    {qualifier : Option Int} {d : Device}
    (h : (Catalogue.ofNames t).device id kind qualifier = .ok d) :
    d.id = id ∧ d.Prescribed t ∧ ∀ i ∈ d.inputs, i.source = none := by
  let p : Part := ⟨(t.lookup? id).getD "", kind, qualifier⟩
  obtain ⟨hadmits, rfl⟩ := (Catalogue.device_ofNames (p := p)).mp h
  refine ⟨rfl, ⟨hadmits, ?_, ?_⟩, ?_⟩
  · simp only [Part.device, List.map_map]
    apply List.map_congr_left
    intro label hlabel
    exact NameTable.lookup?_idFor (ht label (p.inputLabels_subset hlabel))
  · simp only [Part.device, List.map_map]
    apply List.map_congr_left
    intro label hlabel
    cases label with
    | none => rfl
    | some x =>
        exact congrArg some (NameTable.lookup?_idFor (ht x (Part.mem_vocabulary_of_output hlabel)))
  · intro i hi
    obtain ⟨label, -, rfl⟩ := List.mem_map.mp hi
    rfl

theorem indexed_addDevice (h : c.Indexed) {d : Device}
    (hnew : ¬ (c.index.lookup d.id).isSome = true)
    (hdevices : next.devices = c.devices ++ [d])
    (hindex : next.index = c.index ++ [(d.id, c.devices.length)]) : next.Indexed := by
  intro id i
  have hplace : c.index.lookup id = some i ↔ i < c.devices.length ∧
      ∃ e, next.devices[i]? = some e ∧ e.id = id := by
    rw [h id i, hdevices]
    refine ⟨?_, ?_⟩
    · intro he
      obtain ⟨e, he, hid⟩ := he
      obtain ⟨hlt, -⟩ := List.getElem?_eq_some_iff.mp he
      exact ⟨hlt, e, by rw [List.getElem?_append_left hlt]; exact he, hid⟩
    · intro he
      obtain ⟨hlt, e, he, hid⟩ := he
      rw [List.getElem?_append_left hlt] at he
      exact ⟨e, he, hid⟩
  rw [hindex, List.lookup_append]
  by_cases hid : id = d.id
  · -- the new name, which the old index does not have
    subst hid
    rw [Option.not_isSome_iff_eq_none.mp hnew]
    simp only [Option.none_or, List.lookup_cons_self, Option.some.injEq]
    refine ⟨?_, ?_⟩
    · rintro rfl
      exact ⟨d, by rw [hdevices, List.getElem?_concat_length], rfl⟩
    · intro he
      by_contra hne
      obtain ⟨e, he, heid⟩ := he
      obtain ⟨hlt, -⟩ := List.getElem?_eq_some_iff.mp he
      rw [hdevices, List.length_append, List.length_singleton] at hlt
      have hold := hplace.mpr ⟨by omega, e, he, heid⟩
      rw [Option.not_isSome_iff_eq_none.mp hnew] at hold
      exact absurd hold (by simp)
  · have hsingle : List.lookup id [(d.id, c.devices.length)] = none := by
      simp [List.lookup_cons, beq_eq_false_iff_ne.mpr hid]
    rw [hsingle, Option.or_none, hplace]
    refine ⟨fun he => he.2, ?_⟩
    intro he
    refine ⟨?_, he⟩
    obtain ⟨e, he, heid⟩ := he
    obtain ⟨hlt, -⟩ := List.getElem?_eq_some_iff.mp he
    rw [hdevices, List.length_append, List.length_singleton] at hlt
    by_contra hge
    obtain rfl : i = c.devices.length := by omega
    rw [hdevices, List.getElem?_concat_length] at he
    exact hid (Option.some.inj he ▸ heid.symm)

/-- **Preserved by a device.** -/
theorem consistent_addDevice (ht : t.HasVocabulary) (h : c.Consistent t) {id kind : NameId}
    {qualifier : Option Int} (hadd : c.addDevice id kind qualifier = .ok next) :
    next.Consistent t := by
  obtain ⟨hnew, k, -, d, hmade, rfl⟩ := addDevice_eq_ok_iff.mp hadd
  rw [h.catalogue] at hmade
  obtain ⟨rfl, hd, hopen⟩ := prescribed_device ht hmade
  have hinputs : ∀ devices index, inputs { c with devices := devices ++ [d], index := index } =
      devices.flatMap Device.inputs ++ d.inputs := by
    simp [inputs]
  have hout : ∀ s, c.HasOutput s → ∀ index,
      HasOutput { c with devices := c.devices ++ [d], index := index } s := by
    intro s hs index
    obtain ⟨e, he, hs⟩ := hs
    exact ⟨e, List.mem_append_left _ he, hs⟩
  have hnone : d.inputs.countP (·.source.isSome) = 0 :=
    List.countP_eq_zero.mpr fun i hi => by simp [hopen i hi]
  refine ⟨h.catalogue, indexed_addDevice h.indexed hnew rfl rfl, ?_, ?_, ?_, h.nodup_monitors, ?_⟩
  · intro e he
    rcases List.mem_append.mp he with he | he
    · exact h.prescribed e he
    · rwa [List.mem_singleton.mp he]
  · intro i hi s hs
    rw [hinputs] at hi
    rcases List.mem_append.mp hi with hi | hi
    · exact hout s (h.sources i hi s hs) _
    · rw [hopen i hi] at hs
      exact absurd hs (by simp)
  · rw [hinputs, List.countP_append, hnone]
    exact h.counted
  · intro s hs
    exact hout s (h.watched s hs) _

/-! ## A new connection -/

section

variable {f : Device → Device}

theorem Indexed.map (h : c.Indexed) (hf : ∀ d, (f d).SamePins d)
    (hdevices : next.devices = c.devices.map f) (hindex : next.index = c.index) :
    next.Indexed := by
  intro id i
  rw [hindex, h id i, hdevices, List.getElem?_map]
  simp [(hf _).id]

theorem HasOutput.map {s : Signal} (h : c.HasOutput s) (hf : ∀ d, (f d).SamePins d)
    (hdevices : next.devices = c.devices.map f) : next.HasOutput s := by
  obtain ⟨d, hd, hid, hout⟩ := h
  refine ⟨f d, ?_, (hf d).id.trans hid, ?_⟩
  · rw [hdevices]
    exact List.mem_map_of_mem hd
  · rwa [(hf d).outputs]

end

/-- Driving an input of one device leaves the others as they are. -/
theorem exists_split_drive (h : c.Indexed) {d : Device} (hd : d ∈ c.devices) (pin : NameId)
    (source : Signal) :
    ∃ ds es, c.devices = ds ++ d :: es ∧
      c.devices.map (fun e => if e.id = d.id then e.drive pin source else e) =
        ds ++ d.drive pin source :: es := by
  obtain ⟨ds, es, hsplit⟩ := List.append_of_mem hd
  have hnodup := h.nodup_ids
  rw [hsplit, List.map_append, List.map_cons, List.nodup_middle, List.nodup_cons,
    List.mem_append, not_or] at hnodup
  obtain ⟨⟨hds, hes⟩, -⟩ := hnodup
  have hkeep : ∀ xs : List Device, d.id ∉ xs.map Device.id →
      xs.map (fun e => if e.id = d.id then e.drive pin source else e) = xs := by
    intro xs hxs
    have hne : ∀ e ∈ xs, e.id ≠ d.id := fun e he heq => hxs (heq ▸ List.mem_map_of_mem he)
    rw [List.map_congr_left fun e he => if_neg (hne e he), List.map_id']
  refine ⟨ds, es, hsplit, ?_⟩
  rw [hsplit, List.map_append, List.map_cons, hkeep ds hds, hkeep es hes, if_pos rfl]

/-- **Preserved by a connection.** -/
theorem consistent_wires (h : c.Consistent t) {i o : Signal} (hwires : c.Wires i o next) :
    next.Consistent t := by
  obtain ⟨d, e, pin, hd, hin, he, hout, hdrive⟩ := hwires
  obtain ⟨hd, -⟩ := h.indexed.device?_eq_some_iff.mp hd
  obtain ⟨hpin, hhas⟩ := Device.role_eq_input_iff.mp hin
  rw [hpin] at hhas
  obtain ⟨hfree, rfl⟩ := drive_eq_ok_iff.mp hdrive
  have ho : c.HasOutput o := h.indexed.hasOutput he (Device.role_eq_output_iff.mp hout).2
  have hf : ∀ x : Device, (if x.id = d.id then x.drive pin o else x).SamePins x :=
    fun x => Device.samePins_ite_drive d x pin o
  obtain ⟨ds, es, hsplit, hmap⟩ := exists_split_drive h.indexed hd pin o
  refine ⟨h.catalogue, h.indexed.map hf rfl rfl, ?_, ?_, ?_, h.nodup_monitors,
    fun s hs => (h.watched s hs).map hf rfl⟩
  · intro x hx
    obtain ⟨y, hy, rfl⟩ := List.mem_map.mp hx
    exact (h.prescribed y hy).samePins (hf y)
  · -- the one input that is driven now is driven by an output
    intro j hj s hs
    obtain ⟨x, hx, hj⟩ := List.mem_flatMap.mp hj
    obtain ⟨y, hy, rfl⟩ := List.mem_map.mp hx
    have hold : ∀ k ∈ y.inputs, s ∈ k.source → c.HasOutput s :=
      fun k hk hs => h.sources k (List.mem_flatMap.mpr ⟨y, hy, hk⟩) s hs
    suffices hc : c.HasOutput s from hc.map hf rfl
    split at hj
    · obtain ⟨k, hk, rfl⟩ := List.mem_map.mp hj
      split at hs
      · obtain rfl := Option.some.inj hs
        exact ho
      · exact hold k hk hs
    · exact hold j hj hs
  · have hcount := Device.countP_drive o (h.prescribed d hd).nodup_pins hhas hfree
    have hcounted := h.counted
    simp only [inputs, hmap]
    rw [inputs, hsplit] at hcounted
    simp only [List.flatMap_append, List.flatMap_cons, List.countP_append, hcount] at hcounted ⊢
    omega

/-! ## A new monitor -/

/-- **Preserved by a monitor.** -/
theorem consistent_addMonitor (h : c.Consistent t) {q : Signal}
    (hadd : c.addMonitor q.device q.pin = .ok next) : next.Consistent t := by
  obtain ⟨d, hd, hout, hnew, rfl⟩ := addMonitor_eq_ok_iff.mp hadd
  refine ⟨h.catalogue, h.indexed, h.prescribed, h.sources, h.counted, ?_, ?_⟩
  · exact List.nodup_append_comm.mp (List.nodup_cons.mpr ⟨hnew, h.nodup_monitors⟩)
  · intro s hs
    rcases List.mem_append.mp hs with hs | hs
    · exact h.watched s hs
    · obtain rfl := List.mem_singleton.mp hs
      exact h.indexed.hasOutput hd hout

/-! ## Every call -/

/-- A refused call changes nothing, and a call that is taken does one of three things. -/
theorem answer_cases (c : Circuit) (call : Call) :
    (NetworkBuilder.answer c call).2 = c ∨
    (∃ id kind qualifier,
      c.addDevice id kind qualifier = .ok (NetworkBuilder.answer c call).2) ∨
    (∃ i o, c.Wires i o (NetworkBuilder.answer c call).2) ∨
    ∃ q : Signal, c.addMonitor q.device q.pin = .ok (NetworkBuilder.answer c call).2 := by
  cases call with
  | device name kind qualifier =>
      simp only [NetworkBuilder.answer, NetworkBuilder.makeDevice]
      cases hadd : c.addDevice name kind qualifier with
      | error e => exact .inl rfl
      | ok next => exact .inr (.inl ⟨name, kind, qualifier, hadd⟩)
  | connection outDevice outPin inDevice inPin =>
      simp only [NetworkBuilder.answer, NetworkBuilder.makeConnection]
      cases hconnect : c.connect outDevice outPin inDevice inPin with
      | error e => exact .inl rfl
      | ok next =>
          -- either end may be the input
          rcases connect_eq_ok_iff (p := ⟨outDevice, outPin⟩) (q := ⟨inDevice, inPin⟩).mp hconnect
            with hwires | hwires
          · exact .inr (.inr (.inl ⟨_, _, hwires⟩))
          · exact .inr (.inr (.inl ⟨_, _, hwires⟩))
  | monitor device pin =>
      simp only [NetworkBuilder.answer, NetworkBuilder.makeMonitor]
      cases hadd : c.addMonitor device pin with
      | error e => exact .inl rfl
      | ok next => exact .inr (.inr (.inr ⟨⟨device, pin⟩, hadd⟩))

/-- **Preserved by every call**, taken or refused. -/
theorem consistent_answer (ht : t.HasVocabulary) (h : c.Consistent t) (call : Call) :
    (NetworkBuilder.answer c call).2.Consistent t := by
  rcases c.answer_cases call with hsame | ⟨id, kind, qualifier, hadd⟩ | ⟨i, o, hwires⟩ | ⟨q, hadd⟩
  · rw [hsame]
    exact h
  · exact consistent_addDevice ht h hadd
  · exact consistent_wires h hwires
  · exact consistent_addMonitor h hadd

/-- A circuit after calls, each of which it took or refused. -/
def after (c : Circuit) (calls : List Call) : Circuit :=
  calls.foldl (fun c call => (NetworkBuilder.answer c call).2) c

theorem consistent_after (ht : t.HasVocabulary) (h : c.Consistent t) (calls : List Call) :
    (c.after calls).Consistent t := by
  induction calls generalizing c with
  | nil => exact h
  | cons call calls ih => exact ih (consistent_answer ht h call)

/-- It holds of a circuit after any calls, whatever table it is over. -/
theorem exists_consistent (names : NameTable) (calls : List Call) :
    ∃ t, t.HasVocabulary ∧ ((start names).2.after calls).Consistent t := by
  obtain ⟨t, ht, hstart⟩ := start_eq names
  rw [hstart]
  exact ⟨t, ht, consistent_after ht (consistent_empty t) calls⟩

/--
**The invariant of a circuit**, over a table of any names and after any calls, taken or refused. The
index sends exactly the names of the devices to their places, so no name is declared twice. The
devices have the qualifiers and the pins of their kinds, no two inputs of a device share a name, and
no input is an output. What drives an input, and what is watched, is an output of a device. The
connections are as many as the inputs that are driven, so the check for open inputs may as well
compare two numbers.
-/
theorem invariant_after (names : NameTable) (calls : List Call) :
    ((start names).2.after calls).Invariant (start names).1 := by
  obtain ⟨t, ht, hstart⟩ := start_eq names
  rw [hstart]
  exact (consistent_after ht (consistent_empty t) calls).invariant

end Circuit

end LogicNet
