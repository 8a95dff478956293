import Mathlib
import LogicNet.Proofs.Fitting
import LogicNet.Proofs.Rendering
import LogicNet.Proofs.Representation

/-!
# A circuit that is written back parses to itself

The numbers in a circuit mean something only through a table of names. Read through its table, a
circuit is devices, pins and signals by name (`Circuit.read`), and it is this that writing it and
parsing what was written brings back, whatever the numbers are in the new table.

Between the two stands the sentence of the file. It fits together, since the circuit did
(`Circuit.Legible.fits`): names of devices are distinct, each input is driven at most once, and what
drives an input or is watched is an output. And the circuit that it denotes reads as the one that
was written (`Circuit.Legible.read_circuit`), since a connection is the only one that names its
input, in whichever order the connections are written.
-/

namespace LogicNet

/-! ## Circuits by name -/

/-- A signal as a table tells it; a number that is not in use has no name. -/
structure Signal.Reading where
  device : Option String
  pin : Option (Option String)
deriving DecidableEq

/-- An input as a table tells it. -/
structure Input.Reading where
  pin : Option String
  source : Option Signal.Reading
deriving DecidableEq

/-- A device as a table tells it. -/
structure Device.Reading where
  name : Option String
  kind : DeviceKind
  qualifier : Option Int
  inputs : List Input.Reading
  outputs : List (Option (Option String))
deriving DecidableEq

/-- A circuit as a table tells it. -/
structure Circuit.Reading where
  devices : List Device.Reading
  connectionCount : Nat
  monitors : List Signal.Reading
deriving DecidableEq

def Signal.read (t : NameTable) (s : Signal) : Signal.Reading :=
  ⟨t.lookup? s.device, s.pin.map t.lookup?⟩

def Input.read (t : NameTable) (i : Input) : Input.Reading :=
  ⟨t.lookup? i.pin, i.source.map (Signal.read t)⟩

def Device.read (t : NameTable) (d : Device) : Device.Reading :=
  ⟨t.lookup? d.id, d.kind, d.qualifier, d.inputs.map (Input.read t),
    d.outputs.map (Option.map t.lookup?)⟩

def Circuit.read (t : NameTable) (c : Circuit) : Circuit.Reading :=
  ⟨c.devices.map (Device.read t), c.connectionCount, c.monitors.map (Signal.read t)⟩

/-! ## Tables that grow -/

namespace NameTable

variable {t : NameTable} {id : NameId} {x : String}

theorem nodup_names_intern (h : t.names.Nodup) (name : String) : (t.intern name).names.Nodup := by
  unfold intern
  split
  · exact h
  · next hnew => exact List.nodup_append_comm.mp (List.nodup_cons.mpr ⟨hnew, h⟩)

theorem nodup_names_internAll (h : t.names.Nodup) (names : List String) :
    (t.internAll names).names.Nodup := by
  unfold internAll
  induction names generalizing t with
  | nil => exact h
  | cons name names ih => exact ih (nodup_names_intern h name)

theorem lookup?_intern (h : t.lookup? id = some x) (name : String) :
    (t.intern name).lookup? id = some x := by
  unfold intern
  split
  · exact h
  · obtain ⟨hlt, -⟩ := List.getElem?_eq_some_iff.mp h
    rw [lookup?, List.getElem?_append_left hlt]
    exact h

/-- A number that is in use keeps its name, however much is entered later. -/
theorem lookup?_internAll (h : t.lookup? id = some x) (names : List String) :
    (t.internAll names).lookup? id = some x := by
  unfold internAll
  induction names generalizing t with
  | nil => exact h
  | cons name names ih => exact ih (lookup?_intern h name)

/-- Where no name is entered twice, numbers of the same name are the same. -/
theorem lookup?_inj (h : t.names.Nodup) {i j : NameId} (hi : t.lookup? i = some x)
    (hj : t.lookup? j = some x) : i = j := by
  obtain ⟨hlt, -⟩ := List.getElem?_eq_some_iff.mp hi
  have hindex := (List.getElem?_inj hlt h).mp (hi.trans hj.symm)
  cases i
  cases j
  exact congrArg NameId.mk hindex

theorem Spelt.inj (h : t.names.Nodup) {i j : NameId} (hi : t.Spelt i) (hj : t.Spelt j)
    (heq : t.shown i = t.shown j) : i = j :=
  lookup?_inj h hi.lookup? (heq ▸ hj.lookup?)

/-- A name that was entered elsewhere reads as it did. -/
theorem Spelt.lookup?_idFor (h : t.Spelt id) {t' : NameTable} (hmem : t.shown id ∈ t'.names) :
    t'.lookup? (t'.idFor (t.shown id)) = t.lookup? id := by
  rw [NameTable.lookup?_idFor hmem, h.lookup?]

end NameTable

/-- Where no name is entered twice, signals that are named alike are the same. -/
theorem Signal.Spelt.named_inj {t : NameTable} {s s' : Signal} (h : t.names.Nodup)
    (hs : s.Spelt t) (hs' : s'.Spelt t) (heq : s.named t = s'.named t) : s = s' := by
  obtain ⟨hdevice, hpin⟩ := hs
  obtain ⟨hdevice', hpin'⟩ := hs'
  obtain ⟨device, pin⟩ := s
  obtain ⟨device', pin'⟩ := s'
  obtain ⟨hname, hlabel⟩ := Pin.mk.inj heq
  obtain rfl := NameTable.Spelt.inj h hdevice hdevice' hname
  cases pin with
  | none =>
      cases pin' with
      | none => rfl
      | some p' => cases hlabel
  | some p =>
      cases pin' with
      | none => cases hlabel
      | some p' =>
          obtain rfl := NameTable.Spelt.inj h (hpin p rfl) (hpin' p' rfl) (Option.some.inj hlabel)
          rfl

/-- The pins of a device keep their names when more names are entered. -/
theorem Device.Prescribed.internAll {t : NameTable} {d : Device} (h : d.Prescribed t)
    (names : List String) : d.Prescribed (t.internAll names) := by
  have hinputs : d.inputs.map (fun i => (t.internAll names).lookup? i.pin) =
      d.inputs.map fun i => t.lookup? i.pin := by
    apply List.map_congr_left
    intro i hi
    obtain ⟨x, -, hx⟩ := h.exists_inputLabel hi
    rw [hx, NameTable.lookup?_internAll hx]
  have houtputs : d.outputs.map (Option.map (t.internAll names).lookup?) =
      d.outputs.map (Option.map t.lookup?) := by
    apply List.map_congr_left
    intro label hlabel
    cases label with
    | none => rfl
    | some pin =>
        obtain ⟨x, -, hx⟩ := h.exists_outputLabel hlabel
        rw [Option.map_some, Option.map_some, hx, NameTable.lookup?_internAll hx]
  exact ⟨h.admits, hinputs.trans h.inputs, houtputs.trans h.outputs⟩

theorem Circuit.Consistent.internAll {t : NameTable} {c : Circuit} (h : c.Consistent t)
    (ht : t.HasVocabulary) (names : List String) : c.Consistent (t.internAll names) where
  catalogue := by
    rw [h.catalogue]
    exact Catalogue.ofNames_congr fun name hname =>
      (NameTable.idFor_internAll_of_mem (ht name hname)).symm
  indexed := h.indexed
  prescribed := fun d hd => (h.prescribed d hd).internAll names
  sources := h.sources
  counted := h.counted
  nodup_monitors := h.nodup_monitors
  watched := h.watched

/-! ## Devices in names -/

theorem Part.nodup_inputs (p : Part) : p.inputs.Nodup :=
  p.nodup_inputLabels.map fun _ _ heq => Option.some.inj (Pin.mk.inj heq).2

/-- Parts whose names are distinct have distinct inputs. -/
theorem Part.nodup_flatMap_inputs {parts : List Part} (h : (parts.map Part.name).Nodup) :
    (parts.flatMap Part.inputs).Nodup := by
  refine List.nodup_flatMap.mpr ⟨fun p _ => p.nodup_inputs, (List.pairwise_map.mp h).imp ?_⟩
  intro p q hne x hp hq
  exact hne ((mem_inputs.mp hp).1.trans (mem_inputs.mp hq).1.symm)

/-- A qualifier that is admitted is not negative. -/
theorem DeviceKind.nonneg_of_admits {kind : DeviceKind} {q : Option Int}
    (h : kind.qualifierRule.Admits q) : ∀ n ∈ q, 0 ≤ n := by
  rintro n rfl
  cases kind <;> simp only [qualifierRule, QualifierRule.Admits, Option.some.injEq, reduceCtorEq,
    exists_eq_left'] at h <;> omega

/-- What has a name of the catalogue can be written. -/
theorem NameTable.spelt_of_lookup? {t : NameTable} {id : NameId} {x : String}
    (h : t.lookup? id = some x) (hx : x ∈ Catalogue.vocabulary) :
    t.Spelt id ∧ t.shown id ∈ Catalogue.vocabulary := by
  refine ⟨⟨x, h, Catalogue.written_of_mem_vocabulary hx⟩, ?_⟩
  rw [shown, h]
  exact hx

namespace Device

/-- An input of a device as a pin. -/
def inputSignal (d : Device) (i : Input) : Signal := ⟨d.id, some i.pin⟩

variable {t : NameTable} {d : Device}

theorem Prescribed.spelt_input (h : d.Prescribed t) {i : Input} (hi : i ∈ d.inputs) :
    t.Spelt i.pin ∧ t.shown i.pin ∈ Catalogue.vocabulary := by
  obtain ⟨x, hx, hlookup⟩ := h.exists_inputLabel hi
  exact NameTable.spelt_of_lookup? hlookup ((d.part t).inputLabels_subset hx)

theorem Prescribed.spelt_output (h : d.Prescribed t) {pin : NameId} (hpin : some pin ∈ d.outputs) :
    t.Spelt pin ∧ t.shown pin ∈ Catalogue.vocabulary := by
  obtain ⟨x, hx, hlookup⟩ := h.exists_outputLabel hpin
  exact NameTable.spelt_of_lookup? hlookup (Part.mem_vocabulary_of_output hx)

theorem Prescribed.inputLabels_eq (h : d.Prescribed t) :
    (d.part t).inputLabels = d.inputs.map fun i => t.shown i.pin := by
  have hlabels := congrArg (List.map fun x => x.getD "?") h.inputs
  simpa [NameTable.shown, Function.comp_def] using hlabels.symm

theorem Prescribed.outputLabels_eq (h : d.Prescribed t) :
    (d.part t).outputLabels = d.outputs.map (Option.map t.shown) := by
  have hlabels := congrArg (List.map (Option.map fun x => x.getD "?")) h.outputs
  have hshown : (Option.map fun x => x.getD "?") ∘ Option.map t.lookup? = Option.map t.shown :=
    Option.map_comp_map t.lookup? _
  rw [List.map_map, hshown] at hlabels
  simpa [Function.comp_def] using hlabels.symm

theorem name_part (h : t.Spelt d.id) : (d.part t).name = t.shown d.id := by
  rw [part, h.lookup?]
  rfl

theorem Prescribed.inputs_part (h : d.Prescribed t) (hid : t.Spelt d.id) :
    (d.part t).inputs = d.inputs.map fun i => (d.inputSignal i).named t := by
  rw [Part.inputs, h.inputLabels_eq, name_part hid, List.map_map]
  rfl

theorem Prescribed.outputs_part (h : d.Prescribed t) (hid : t.Spelt d.id) :
    (d.part t).outputs = d.outputs.map fun pin => (⟨d.id, pin⟩ : Signal).named t := by
  rw [Part.outputs, h.outputLabels_eq, name_part hid, List.map_map]
  rfl

/-- A device is declared as the part that it is. -/
theorem Prescribed.part?_decl (h : d.Prescribed t) (hid : t.Spelt d.id) :
    (d.decl t).part? = some (d.part t) := by
  have hkind : DeviceKind.ofSpelling? (d.decl t).kind.text = some d.kind :=
    DeviceKind.ofSpelling?_eq_some_iff.mpr rfl
  have hnumber : (d.decl t).number = d.qualifier := by
    cases hq : d.qualifier with
    | none => simp [DeviceDecl.number, decl, hq]
    | some n =>
        have hn := DeviceKind.nonneg_of_admits h.admits n hq
        simp [DeviceDecl.number, decl, hq, Int.toNat_of_nonneg hn]
  have hname : (d.decl t).name.text = (d.part t).name := (name_part hid).symm
  rw [DeviceDecl.part?, hkind, Option.map_some, hnumber, hname]
  rfl

end Device

/-! ## Circuits that can be written -/

/-- What is made of some members of a list is part of what is made of all. -/
theorem filterMap_sublist_map {α β : Type} {f : α → Option β} {g : α → β} {as : List α}
    (h : ∀ a ∈ as, ∀ b ∈ f a, b = g a) : (as.filterMap f).Sublist (as.map g) := by
  induction as with
  | nil => exact .slnil
  | cons a as ih =>
      have ih := ih fun x hx => h x (List.mem_cons_of_mem a hx)
      cases hf : f a with
      | none =>
          rw [List.filterMap_cons_none hf]
          exact ih.cons _
      | some b =>
          rw [List.filterMap_cons_some hf, List.map_cons, h a List.mem_cons_self b hf]
          exact ih.cons_cons _

namespace Circuit

theorem mem_links {c : Circuit} {l : Link} : l ∈ c.links ↔ ∃ d ∈ c.devices, ∃ i ∈ d.inputs,
    d.inputSignal i = l.input ∧ i.source = some l.source := by
  obtain ⟨device, pin, source⟩ := l
  simp only [links, List.mem_flatMap, List.mem_filterMap, Option.map_eq_some_iff, Link.mk.injEq,
    Device.inputSignal, Link.input, Signal.mk.injEq, Option.some.injEq]
  grind

/-- A circuit over its table, of which everything can be written and read. -/
structure Legible (t : NameTable) (c : Circuit) : Prop where
  nodup : t.names.Nodup
  vocabulary : t.HasVocabulary
  consistent : c.Consistent t
  names : ∀ d ∈ c.devices, t.Spelt d.id
  numbers : ∀ d ∈ c.devices, ∀ q ∈ d.qualifier, q ≤ numberLimit

namespace Legible

variable {t : NameTable} {c : Circuit} {links : List Link} {d : Device} {i : Input} {l : Link}
  {s : Signal}

theorem spelt_output (h : c.Legible t) (hs : c.HasOutput s) : s.Spelt t := by
  obtain ⟨d, hd, hid, hpin⟩ := hs
  refine ⟨hid ▸ h.names d hd, fun p hp => ?_⟩
  rw [Option.mem_def.mp hp] at hpin
  exact ((h.consistent.prescribed d hd).spelt_output hpin).1

theorem spelt_input (h : c.Legible t) (hd : d ∈ c.devices) (hi : i ∈ d.inputs) :
    (d.inputSignal i).Spelt t := by
  refine ⟨h.names d hd, fun p hp => ?_⟩
  obtain rfl := Option.some.inj (Option.mem_def.mp hp)
  exact ((h.consistent.prescribed d hd).spelt_input hi).1

theorem hasOutput_source (h : c.Legible t) (hl : l ∈ c.links) : c.HasOutput l.source := by
  obtain ⟨d, hd, i, hi, -, hsource⟩ := mem_links.mp hl
  exact h.consistent.sources i (List.mem_flatMap.mpr ⟨d, hd, hi⟩) l.source hsource

theorem spelt (h : c.Legible t) : c.Spelt t where
  devices := h.names
  numbers := fun d hd q hq =>
    ⟨DeviceKind.nonneg_of_admits (h.consistent.prescribed d hd).admits q hq, h.numbers d hd q hq⟩
  links := by
    intro l hl
    obtain ⟨d, hd, i, hi, hinput, -⟩ := mem_links.mp hl
    obtain ⟨hdevice, hpin⟩ := hinput ▸ h.spelt_input hd hi
    exact ⟨h.spelt_output (h.hasOutput_source hl), hdevice, hpin l.pin rfl⟩
  monitors := fun s hs => h.spelt_output (h.consistent.watched s hs)

/-- No two devices have the same name. -/
theorem nodup_shown (h : c.Legible t) : (c.devices.map fun d => t.shown d.id).Nodup := by
  refine (h.consistent.indexed.nodup_ids.of_map Device.id).map_on fun d hd e he heq => ?_
  exact List.inj_on_of_nodup_map h.consistent.indexed.nodup_ids hd he
    (NameTable.Spelt.inj h.nodup (h.names d hd) (h.names e he) heq)

/-- Inputs of the same name are the same. -/
theorem eq_of_named_eq (h : c.Legible t) {e : Device} {j : Input} (hd : d ∈ c.devices)
    (hi : i ∈ d.inputs) (he : e ∈ c.devices) (hj : j ∈ e.inputs)
    (heq : (d.inputSignal i).named t = (e.inputSignal j).named t) : d = e ∧ i = j := by
  have hsame := Signal.Spelt.named_inj h.nodup (h.spelt_input hd hi) (h.spelt_input he hj) heq
  obtain ⟨hid, hpin⟩ := Signal.mk.inj hsame
  obtain rfl := List.inj_on_of_nodup_map h.consistent.indexed.nodup_ids hd he hid
  exact ⟨rfl, List.inj_on_of_nodup_map (h.consistent.prescribed d hd).nodup_pins hi hj
    (Option.some.inj hpin)⟩

/-! ### The sentence of the file -/

theorem parts_sentence (h : c.Legible t) :
    (c.sentence t links).parts = c.devices.map (Device.part t) := by
  rw [Sentence.parts, sentence, List.filterMap_map, ← List.filterMap_eq_map]
  exact List.filterMap_congr fun d hd =>
    (h.consistent.prescribed d hd).part?_decl (h.names d hd)

theorem inputs_sentence (h : c.Legible t) :
    (c.sentence t links).inputs = c.devices.flatMap fun d =>
      d.inputs.map fun i => (d.inputSignal i).named t := by
  rw [Sentence.inputs, h.parts_sentence, List.flatMap_map]
  exact List.flatMap_congr fun d hd =>
    (h.consistent.prescribed d hd).inputs_part (h.names d hd)

theorem mem_outputs (h : c.Legible t) (hs : c.HasOutput s) :
    s.named t ∈ (c.sentence t links).outputs := by
  obtain ⟨d, hd, hid, hpin⟩ := hs
  rw [Sentence.outputs, h.parts_sentence, List.flatMap_map, List.mem_flatMap]
  refine ⟨d, hd, ?_⟩
  rw [(h.consistent.prescribed d hd).outputs_part (h.names d hd), List.mem_map]
  exact ⟨s.pin, hpin, by rw [hid]⟩

theorem mem_inputs (h : c.Legible t) (hd : d ∈ c.devices) (hi : i ∈ d.inputs) :
    (d.inputSignal i).named t ∈ (c.sentence t links).inputs := by
  rw [h.inputs_sentence]
  exact List.mem_flatMap.mpr ⟨d, hd, List.mem_map.mpr ⟨i, hi, rfl⟩⟩

theorem nodup_devices (h : c.Legible t) :
    ((c.sentence t links).devices.map fun d => d.name.text).Nodup := by
  rw [sentence, List.map_map]
  exact h.nodup_shown

theorem names_parts (h : c.Legible t) : t.Names (c.sentence t links).parts := by
  refine Sentence.names_parts h.vocabulary ?_ h.nodup_devices
  rw [sentence, List.forall_mem_map]
  intro d hd
  exact List.mem_of_getElem? (h.names d hd).lookup?

/-- A connection names the input that it drives, and no other. -/
theorem names_decl (h : c.Legible t) (hl : l ∈ c.links) {p : Pin}
    (hp : p ∈ (c.sentence t links).inputs) :
    (l.decl t).names p = (l.input.named t == p) ∧
      (l.decl t).otherEnd? p = if l.input.named t = p then some (l.source.named t) else none := by
  -- the other end is an output, and so it is none of the inputs
  have hne : l.source.named t ≠ p := by
    rintro rfl
    exact h.names_parts.not_mem_outputs hp (h.mem_outputs (h.hasOutput_source hl))
  simp [ConnectionDecl.names, ConnectionDecl.otherEnd?, hne]

theorem input_mem_inputs (h : c.Legible t) (hl : l ∈ c.links) :
    l.input.named t ∈ (c.sentence t links).inputs := by
  obtain ⟨d, hd, i, hi, hinput, -⟩ := mem_links.mp hl
  rw [← hinput]
  exact h.mem_inputs hd hi

/-- No two links are to the same input. -/
theorem nodup_links (h : c.Legible t) : (c.links.map fun l => l.input.named t).Nodup := by
  have hinputs : (c.sentence t []).inputs.Nodup :=
    Part.nodup_flatMap_inputs h.names_parts.nodup
  rw [h.inputs_sentence] at hinputs
  -- the links are to some of the inputs, in their order
  refine hinputs.sublist ?_
  rw [links, List.map_flatMap]
  refine List.Sublist.flatMap_right _ fun d _ => ?_
  rw [List.map_filterMap]
  refine filterMap_sublist_map fun i _ p hp => ?_
  obtain ⟨l, hl, rfl⟩ := Option.map_eq_some_iff.mp hp
  obtain ⟨s, -, rfl⟩ := Option.map_eq_some_iff.mp hl
  rfl

/-- What drives an input is the other end of the connection that names it. -/
theorem sourceIn?_links (h : c.Legible t) (hlinks : links.Perm c.links) (hd : d ∈ c.devices)
    (hi : i ∈ d.inputs) :
    sourceIn? (links.map (Link.decl t)) ((d.inputSignal i).named t) =
      i.source.map (Signal.named t) := by
  have hp : (d.inputSignal i).named t ∈ (c.sentence t links).inputs := h.mem_inputs hd hi
  -- whatever is found is what drives the input
  have hfound : ∀ o, sourceIn? (links.map (Link.decl t)) ((d.inputSignal i).named t) = some o →
      i.source.map (Signal.named t) = some o := by
    intro o ho
    obtain ⟨decl, hdecl, hend⟩ := List.exists_of_findSome?_eq_some ho
    obtain ⟨l, hl, rfl⟩ := List.mem_map.mp hdecl
    have hl := hlinks.mem_iff.mp hl
    rw [(h.names_decl hl hp).2, Option.ite_none_right_eq_some] at hend
    obtain ⟨hinput, hsource⟩ := hend
    obtain ⟨e, he, j, hj, hlink, hdriven⟩ := mem_links.mp hl
    rw [← hlink] at hinput
    obtain ⟨-, rfl⟩ := h.eq_of_named_eq hd hi he hj hinput.symm
    rw [hdriven]
    exact hsource
  cases hdriven : i.source with
  | none =>
      refine Option.eq_none_iff_forall_ne_some.mpr fun o ho => ?_
      have hnone := hfound o ho
      rw [hdriven] at hnone
      cases hnone
  | some s =>
      -- its connection is there, wherever among the others
      have hl : (⟨d.id, i.pin, s⟩ : Link) ∈ c.links :=
        mem_links.mpr ⟨d, hd, i, hi, rfl, hdriven⟩
      have hend := (h.names_decl hl hp).2
      rw [if_pos (by rfl)] at hend
      have hsome :
          (sourceIn? (links.map (Link.decl t)) ((d.inputSignal i).named t)).isSome = true := by
        refine List.findSome?_isSome_iff.mpr ⟨_, List.mem_map_of_mem (hlinks.mem_iff.mpr hl), ?_⟩
        rw [hend]
        rfl
      obtain ⟨o, ho⟩ := Option.isSome_iff_exists.mp hsome
      rw [ho, ← hfound o ho, hdriven]

/-- **What is written of a circuit fits together.** -/
theorem fits (h : c.Legible t) (hlinks : links.Perm c.links) : (c.sentence t links).Fits where
  nodup_devices := h.nodup_devices
  admits := by
    rw [sentence, List.forall_mem_map]
    intro d hd
    have hprescribed := h.consistent.prescribed d hd
    exact ⟨_, hprescribed.part?_decl (h.names d hd), hprescribed.admits⟩
  joins := by
    rw [sentence, List.forall_mem_map]
    intro l hl
    have hl := hlinks.mem_iff.mp hl
    exact ⟨_, h.input_mem_inputs hl, _, h.mem_outputs (h.hasOutput_source hl),
      .inr ⟨l.first_decl t, l.second_decl t⟩⟩
  once := by
    intro p hp
    have hcount : (links.map (Link.decl t)).countP (·.names p) =
        (links.map fun l => l.input.named t).count p := by
      rw [List.count, List.countP_map, List.countP_map]
      refine List.countP_congr fun l hl => ?_
      simp only [Function.comp, (h.names_decl (hlinks.mem_iff.mp hl) hp).1]
    rw [sentence, hcount]
    exact List.nodup_iff_count_le_one.mp ((hlinks.map _).nodup_iff.mpr h.nodup_links) p
  nodup_monitors := by
    rw [sentence, List.map_map]
    simp only [Function.comp_def, Signal.watched_decl]
    refine h.consistent.nodup_monitors.map_on fun s hs s' hs' heq => ?_
    exact Signal.Spelt.named_inj h.nodup (h.spelt_output (h.consistent.watched s hs))
      (h.spelt_output (h.consistent.watched s' hs')) heq
  watched := by
    rw [sentence, List.forall_mem_map]
    intro s hs
    rw [Signal.watched_decl]
    exact h.mem_outputs (h.consistent.watched s hs)

/-! ### The circuit that it denotes -/

theorem length_links (h : c.Legible t) : c.links.length = c.connectionCount := by
  rw [h.consistent.counted, links, List.length_flatMap, inputs, List.countP_flatMap]
  refine congrArg List.sum (List.map_congr_left fun d _ => ?_)
  simp [List.length_filterMap_eq_countP]

variable {t' : NameTable}

/-- A signal reads as before where its names are entered. -/
theorem read_named (h : c.Legible t) (ht' : t'.HasVocabulary)
    (hentered : ∀ d ∈ c.devices, t.shown d.id ∈ t'.names) (hs : c.HasOutput s) :
    ((s.named t).signal t').read t' = s.read t := by
  obtain ⟨hdevice, hpin⟩ := h.spelt_output hs
  obtain ⟨d, hd, hid, hout⟩ := hs
  obtain ⟨device, pin⟩ := s
  have hname := hdevice.lookup?_idFor (hid ▸ hentered d hd)
  cases pin with
  | none => simp only [Signal.read, Pin.signal, Signal.named, Option.map_none, hname]
  | some p =>
      have hlabel := (hpin p rfl).lookup?_idFor
        (ht' _ ((h.consistent.prescribed d hd).spelt_output hout).2)
      simp only [Signal.read, Pin.signal, Signal.named, Option.map_some, hname, hlabel]

theorem read_part (h : c.Legible t) (hlinks : links.Perm c.links) (ht' : t'.HasVocabulary)
    (hentered : ∀ d ∈ c.devices, t.shown d.id ∈ t'.names) (hd : d ∈ c.devices) :
    ((d.part t).device t' (sourceIn? (links.map (Link.decl t)))).read t' = d.read t := by
  have hp := h.consistent.prescribed d hd
  simp only [Device.read, Part.device, hp.inputLabels_eq, hp.outputLabels_eq,
    Device.name_part (h.names d hd), List.map_map, Device.Reading.mk.injEq]
  refine ⟨(h.names d hd).lookup?_idFor (hentered d hd), rfl, rfl, ?_, ?_⟩
  · apply List.map_congr_left
    intro i hi
    have hsource := h.sourceIn?_links hlinks hd hi
    obtain ⟨hspelt, hlabel⟩ := hp.spelt_input hi
    simp only [Device.inputSignal, Signal.named, Option.map_some] at hsource
    simp only [Function.comp, Input.read, hsource, Option.map_map,
      hspelt.lookup?_idFor (ht' _ hlabel)]
    congr 1
    refine Option.map_congr fun s hs => ?_
    exact h.read_named ht' hentered
      (h.consistent.sources i (List.mem_flatMap.mpr ⟨d, hd, hi⟩) s hs)
  · apply List.map_congr_left
    intro label hlabel
    cases label with
    | none => rfl
    | some pin =>
        obtain ⟨hspelt, hlabel⟩ := hp.spelt_output hlabel
        exact congrArg some (hspelt.lookup?_idFor (ht' _ hlabel))

/-- **The circuit that the file denotes reads as the one that was written.** -/
theorem read_circuit (h : c.Legible t) (hlinks : links.Perm c.links) (ht' : t'.HasVocabulary)
    (hentered : ∀ d ∈ c.devices, t.shown d.id ∈ t'.names) :
    ((c.sentence t links).circuit t').read t' = c.read t := by
  rw [Sentence.circuit, h.parts_sentence]
  simp only [read, ofParts, sentence, List.map_map, List.length_map, Reading.mk.injEq]
  refine ⟨?_, hlinks.length_eq.trans h.length_links, ?_⟩
  · exact List.map_congr_left fun d hd => h.read_part hlinks ht' hentered hd
  · refine List.map_congr_left fun s hs => ?_
    rw [Function.comp, Function.comp, Signal.watched_decl]
    exact h.read_named ht' hentered (h.consistent.watched s hs)

end Legible

/-- Whether a circuit is complete can be told from what it reads as. -/
theorem isConnected_eq_of_read_eq {t t' : NameTable} {c c' : Circuit}
    (h : c'.read t' = c.read t) : c'.isConnected = c.isConnected := by
  have hread : ∀ (t : NameTable) (c : Circuit), c.isConnected =
      (c.read t).devices.all fun d => d.inputs.all (·.source.isSome) := by
    intro t c
    simp only [isConnected, read, List.all_map, Device.read, Input.read, Function.comp_def,
      Option.isSome_map]
    rfl
  rw [hread t', hread t, h]

theorem isConnected_iff_no_open_input {c : Circuit} :
    c.isConnected = true ↔ ¬ ∃ i ∈ c.inputs, i.source = none := by
  simp [isConnected_iff_countP, List.countP_eq_length, Option.isSome_iff_ne_none]

/-- A circuit that can be written is parsed from its file, over any fresh table. -/
theorem Legible.parse_file_eq {t f : NameTable} {c : Circuit} {links : List Link}
    (h : c.Legible t) (hlinks : links.Perm c.links) (hf : f.HasVocabulary) :
    let r := parse f (empty f) (c.file t links)
    r.builder.read r.names = c.read t ∧ r.diagnostics.map Diagnostic.kind =
      if r.builder.isConnected then [] else [.syntactic .incompleteNetwork] := by
  intro r
  have hsays := c.says_sentence t links
  have htokens := tokens_file h.spelt fun l hl => hlinks.mem_iff.mp hl
  obtain ⟨hnames, es, hover, hkinds⟩ := hsays.parse_unplaced htokens f (empty f)
  have hdevices := hsays.name_mem_forFile f
  have hvocabulary := hf.forFile ((c.sentence t links).lexemes.map Lexeme.unplaced)
  rw [hnames, empty_eq_ofParts hf] at hover
  obtain ⟨hbuilder, hdiagnostics⟩ := hover.fits (h.fits hlinks) hvocabulary hdevices
  rw [← empty_eq_ofParts hf] at hbuilder hdiagnostics
  refine ⟨?_, hkinds.trans hdiagnostics⟩
  have hentered : ∀ d ∈ c.devices, t.shown d.id ∈ r.names.names := by
    rw [hnames]
    rwa [sentence, List.forall_mem_map] at hdevices
  rw [hbuilder, hnames]
  exact h.read_circuit hlinks hvocabulary (hnames ▸ hentered)

/-- A circuit is started over a table without repetitions. -/
theorem start_eq_of_internAll (names : List String) :
    ∃ t, t.HasVocabulary ∧ t.names.Nodup ∧
      start (NameTable.empty.internAll names) = (t, empty t) := by
  refine ⟨(NameTable.empty.internAll names).internAll Catalogue.vocabulary, ?_, ?_, by rw [start]⟩
  · intro name hname
    exact NameTable.mem_names_internAll.mpr (.inr hname)
  · exact NameTable.nodup_names_internAll
      (NameTable.nodup_names_internAll List.nodup_nil names) Catalogue.vocabulary

/--
**A circuit that is written back parses to itself.** Take any circuit that calls can lead to, over
any table, in which the devices have names that are read as names and the qualifiers fit into 64
bits. Its file, with the connections in any order, is parsed into a fresh circuit over a fresh
table, and the devices, their pins and what drives them, the number of connections and the monitors
are the same by name. Nothing is reported but open inputs, and these once, if there are any.
-/
theorem parse_file (before more : List String) (calls : List Call) (links : List Link) :
    let start := Circuit.start (NameTable.empty.internAll before)
    let c := start.2.after calls
    let t := start.1.internAll more
    (∀ d ∈ c.devices, t.Spelt d.id) → (∀ d ∈ c.devices, ∀ q ∈ d.qualifier, q < 2 ^ 63) →
    links.Perm c.links →
    let fresh := Circuit.start .empty
    let r := parse fresh.1 fresh.2 (c.file t links)
    r.builder.read r.names = c.read t ∧
      r.diagnostics.map Diagnostic.kind =
        if ∃ i ∈ c.inputs, i.source = none then [.syntactic .incompleteNetwork] else [] := by
  obtain ⟨t₀, ht₀, hnodup, hstart⟩ := start_eq_of_internAll before
  obtain ⟨f, hf, hfresh⟩ := start_eq .empty
  rw [hstart, hfresh]
  intro start c t hnames hnumbers hlinks fresh r
  have hconsistent : c.Consistent t₀ := consistent_after ht₀ (consistent_empty t₀) calls
  have hlegible : c.Legible t :=
    { nodup := NameTable.nodup_names_internAll hnodup more
      vocabulary := fun name hname => NameTable.mem_names_internAll.mpr (.inl (ht₀ name hname))
      consistent := hconsistent.internAll ht₀ more
      names := hnames
      numbers := fun d hd q hq => Int.le_of_lt_add_one (hnumbers d hd q hq) }
  obtain ⟨hread, hkinds⟩ := hlegible.parse_file_eq hlinks hf
  refine ⟨hread, hkinds.trans ?_⟩
  rw [isConnected_eq_of_read_eq hread]
  simp only [isConnected_iff_no_open_input, ite_not]

set_option maxRecDepth 4000 in
/-- A flip-flop that is set by a switch and fed by its own output, with two inputs left open. -/
theorem parse_file_flip_flop :
    let start := Circuit.start (NameTable.empty.internAll ["S"])
    let c := start.2.after [.device ⟨0⟩ ⟨7⟩ (some 1), .device ⟨31⟩ ⟨8⟩ none,
      .connection ⟨0⟩ none ⟨31⟩ (some ⟨27⟩), .connection ⟨31⟩ (some ⟨25⟩) ⟨31⟩ (some ⟨30⟩),
      .monitor ⟨31⟩ (some ⟨29⟩), .monitor ⟨31⟩ none]
    let t := start.1.internAll ["F1"]
    let fresh := Circuit.start .empty
    let text := "DEVICES\nSWITCH, 1 = S;\nDTYPE = F1;\nEND\nCONNECTIONS\nS - F1.SET;\n" ++
      "F1.QBAR - F1.DATA;\nEND\nMONITOR\nF1.Q;\nEND\nMAIN_END\n"
    let r := parse fresh.1 fresh.2 text
    c.file t c.links.reverse = text ∧ r.builder.read r.names = c.read t ∧
      r.diagnostics.map Diagnostic.kind = [.syntactic .incompleteNetwork] := by
  intro start c t fresh text r
  have hfile : c.file t c.links.reverse = text := by
    unfold text t c start
    cbv
  have hdeclared : c.devices.map (fun d => (d.id, d.qualifier)) =
      [(⟨0⟩, some 1), (⟨31⟩, none)] := by
    unfold c start
    cbv
  have hdevices : ∀ d ∈ c.devices,
      (d.id = ⟨0⟩ ∧ d.qualifier = some 1) ∨ (d.id = ⟨31⟩ ∧ d.qualifier = none) := by
    intro d hd
    have hmem := List.mem_map_of_mem (f := fun d : Device => (d.id, d.qualifier)) hd
    rw [hdeclared] at hmem
    simpa using hmem
  have hnumbers : ∀ d ∈ c.devices, ∀ q ∈ d.qualifier, q < 2 ^ 63 := by
    intro d hd q hq
    rcases hdevices d hd with ⟨-, hd⟩ | ⟨-, hd⟩ <;> simp [hd] at hq
    omega
  have hswitch : t.Spelt ⟨0⟩ := by
    refine ⟨"S", ?_, Lexeme.written_name (by decide) (by decide) (by decide)⟩
    unfold t start
    cbv
  have hflipFlop : t.Spelt ⟨31⟩ := by
    refine ⟨"F1", ?_, Lexeme.written_name (by decide) (by decide) (by decide)⟩
    unfold t start
    cbv
  have hspelt : ∀ d ∈ c.devices, t.Spelt d.id := by
    intro d hd
    rcases hdevices d hd with ⟨hid, -⟩ | ⟨hid, -⟩ <;> rw [hid]
    · exact hswitch
    · exact hflipFlop
  have hopen : ∃ i ∈ c.inputs, i.source = none := by
    have hany : c.inputs.any (·.source = none) = true := by
      unfold c start
      cbv
    simpa using hany
  obtain ⟨hread, hkinds⟩ := parse_file ["S"] ["F1"] _ c.links.reverse hspelt hnumbers
    (List.reverse_perm _)
  rw [hfile] at hread hkinds
  rw [if_pos hopen] at hkinds
  exact ⟨hfile, hread, hkinds⟩

end Circuit

end LogicNet
