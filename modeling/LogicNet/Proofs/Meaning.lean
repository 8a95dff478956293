import LogicNet.Circuit.Basic
import LogicNet.Proofs.Grammar

/-!
# The circuit that a sentence denotes

A sentence is well formed if its devices, connections and monitors fit together, whichever is
written first. What it denotes is then settled by names alone: each device is a part with its pins,
each input is driven from the other end of the connection that names it, and the signals that are
watched are outputs.

Nothing here goes through the declarations one after the other and nothing is looked up in a
circuit. Only in the end are names replaced by their numbers.
-/

namespace LogicNet

/-- A pin as it is written; no label means the output without a name. -/
structure Pin where
  device : String
  label : Option String
deriving DecidableEq

/-- The signal of a pin, where names have the numbers of a table. -/
def Pin.signal (names : NameTable) (p : Pin) : Signal :=
  ⟨names.idFor p.device, p.label.map names.idFor⟩

/-- A device of one of the eight kinds. -/
structure Part where
  name : String
  kind : DeviceKind
  qualifier : Option Int
deriving DecidableEq

namespace Part

/-- The labels of the inputs. A gate has as many inputs as its qualifier says. -/
def inputLabels (p : Part) : List String :=
  match p.kind with
  | .and | .nand | .or | .nor => gateInputLabels.take (p.qualifier.getD 0).toNat
  | .xor => gateInputLabels.take 2
  | .clock | .switch => []
  | .dtype => flipFlopInputLabels

def outputLabels (p : Part) : List (Option String) :=
  match p.kind with
  | .dtype => flipFlopOutputLabels.map some
  | .and | .nand | .or | .nor | .xor | .clock | .switch => [none]

def inputs (p : Part) : List Pin := p.inputLabels.map fun label => ⟨p.name, some label⟩

def outputs (p : Part) : List Pin := p.outputLabels.map fun label => ⟨p.name, label⟩

/-- The device that a part is, where `source?` says what drives an input. -/
def device (names : NameTable) (source? : Pin → Option Pin) (p : Part) : Device where
  id := names.idFor p.name
  kind := p.kind
  qualifier := p.qualifier
  inputs := p.inputLabels.map fun label =>
    ⟨names.idFor label, (source? ⟨p.name, some label⟩).map (Pin.signal names)⟩
  outputs := p.outputLabels.map fun label => label.map names.idFor

end Part

/-- The number given with the type of a device. -/
def DeviceDecl.number (d : DeviceDecl) : Option Int := d.qualifier.map fun n => (n.value : Int)

/-- The part that is declared, if its type is one of the eight. -/
def DeviceDecl.part? (d : DeviceDecl) : Option Part :=
  (DeviceKind.ofSpelling? d.kind.text).map fun kind => ⟨d.name.text, kind, d.number⟩

theorem DeviceDecl.name_of_part? {d : DeviceDecl} {p : Part} (h : d.part? = some p) :
    p.name = d.name.text := by
  obtain ⟨kind, -, rfl⟩ := Option.map_eq_some_iff.mp h
  rfl

theorem DeviceDecl.exists_part?_iff {d : DeviceDecl} :
    (∃ p, d.part? = some p ∧ p.kind.qualifierRule.Admits p.qualifier) ↔
      ∃ kind : DeviceKind, kind.spelling = d.kind.text ∧ kind.qualifierRule.Admits d.number := by
  simp only [part?, Option.map_eq_some_iff, DeviceKind.ofSpelling?_eq_some_iff]
  refine ⟨?_, ?_⟩
  · intro h
    obtain ⟨_, ⟨kind, hkind, rfl⟩, hadmits⟩ := h
    exact ⟨kind, hkind, hadmits⟩
  · intro h
    obtain ⟨kind, hkind, hadmits⟩ := h
    exact ⟨_, ⟨kind, hkind, rfl⟩, hadmits⟩

theorem DeviceDecl.names_part?_sublist (ds : List DeviceDecl) :
    ((ds.filterMap part?).map Part.name).Sublist (ds.map (·.name.text)) := by
  induction ds with
  | nil => exact .slnil
  | cons d ds ih =>
      cases hp : d.part? with
      | none =>
          rw [List.filterMap_cons_none hp]
          exact ih.cons _
      | some p =>
          rw [List.filterMap_cons_some hp, List.map_cons, name_of_part? hp]
          exact ih.cons_cons _

namespace ConnectionDecl

/-- The pin before the dash. -/
def first (d : ConnectionDecl) : Pin := ⟨d.outDevice.text, d.outPin.map Word.text⟩

/-- The pin after the dash. -/
def second (d : ConnectionDecl) : Pin := ⟨d.inDevice.text, some d.inPin.text⟩

/-- The ends of a connection, in either order. -/
def Joins (d : ConnectionDecl) (p q : Pin) : Prop :=
  d.first = p ∧ d.second = q ∨ d.first = q ∧ d.second = p

/-- Whether a connection names a pin. -/
def names (d : ConnectionDecl) (p : Pin) : Bool := d.first == p || d.second == p

/-- The other end of a connection that names a pin. -/
def otherEnd? (d : ConnectionDecl) (p : Pin) : Option Pin :=
  if d.first = p then some d.second else if d.second = p then some d.first else none

theorem Joins.names_left {d : ConnectionDecl} {i o : Pin} (h : d.Joins i o) : d.names i = true := by
  rcases h with ⟨rfl, rfl⟩ | ⟨rfl, rfl⟩ <;> simp [names]

theorem Joins.names_eq_false {d : ConnectionDecl} {i o p : Pin} (h : d.Joins i o) (hi : p ≠ i)
    (ho : p ≠ o) : d.names p = false := by
  rcases h with ⟨rfl, rfl⟩ | ⟨rfl, rfl⟩ <;> simp [names, hi.symm, ho.symm]

theorem otherEnd?_eq_none_iff {d : ConnectionDecl} {p : Pin} :
    d.otherEnd? p = none ↔ d.names p = false := by
  unfold otherEnd? names
  split <;> simp_all

end ConnectionDecl

/-- What drives an input: the other end of the first connection that names it. -/
def sourceIn? (connections : List ConnectionDecl) (p : Pin) : Option Pin :=
  connections.findSome? (·.otherEnd? p)

/-- An input that nothing drives is one that no connection names. -/
theorem sourceIn?_eq_none_iff {connections : List ConnectionDecl} {p : Pin} :
    sourceIn? connections p = none ↔ connections.countP (·.names p) = 0 := by
  simp [sourceIn?, List.countP_eq_zero, ConnectionDecl.otherEnd?_eq_none_iff]

/-- The pin that is watched. -/
def MonitorDecl.watched (d : MonitorDecl) : Pin := ⟨d.device.text, d.pin.map Word.text⟩

/-- The circuit of parts that are connected and watched. -/
def Circuit.ofParts (names : NameTable) (parts : List Part) (connections : List ConnectionDecl)
    (monitors : List MonitorDecl) : Circuit where
  devices := parts.map (Part.device names (sourceIn? connections))
  index := (parts.map fun p => names.idFor p.name).zipIdx
  monitors := monitors.map fun d => d.watched.signal names
  connectionCount := connections.length
  catalogue := .ofNames names

namespace Sentence

/-- The devices whose type is one of the eight, in order. -/
def parts (s : Sentence) : List Part := s.devices.filterMap DeviceDecl.part?

def inputs (s : Sentence) : List Pin := s.parts.flatMap Part.inputs

def outputs (s : Sentence) : List Pin := s.parts.flatMap Part.outputs

/-- What a sentence says fits together. -/
structure WellFormed (s : Sentence) : Prop where
  nodup_devices : (s.devices.map fun d => d.name.text).Nodup
  /-- Each type is one of the eight, with a number that it admits. -/
  admits : ∀ d ∈ s.devices, ∃ kind : DeviceKind,
    kind.spelling = d.kind.text ∧ kind.qualifierRule.Admits d.number
  /-- Each connection joins an input and an output. -/
  joins : ∀ d ∈ s.connections, ∃ i ∈ s.inputs, ∃ o ∈ s.outputs, d.Joins i o
  /-- Each input is named by exactly one connection. -/
  driven : ∀ i ∈ s.inputs, s.connections.countP (·.names i) = 1
  nodup_monitors : (s.monitors.map MonitorDecl.watched).Nodup
  watched : ∀ d ∈ s.monitors, d.watched ∈ s.outputs

/-- The circuit that a sentence denotes. -/
def circuit (s : Sentence) (names : NameTable) : Circuit :=
  .ofParts names s.parts s.connections s.monitors

end Sentence

end LogicNet
