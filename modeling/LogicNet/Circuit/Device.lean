import LogicNet.Circuit.Kind
import LogicNet.NameTable

/-!
# Devices and their pins

A device has inputs, each driven by at most one signal, and outputs. Most devices have one output
without a name, and a signal names its pin only when the output has a name.
-/

namespace LogicNet

/-- A pin of a device; no pin name means the output without a name. -/
structure Signal where
  device : NameId
  pin : Option NameId
deriving DecidableEq

/-- A signal as it is written in a definition file. -/
def Signal.text (names : NameTable) (s : Signal) : String :=
  let device := (names.lookup? s.device).getD "?"
  match s.pin.bind names.lookup? with
  | some pin => device ++ "." ++ pin
  | none => device

/-- An input of a device, and the signal that drives it. -/
structure Input where
  pin : NameId
  source : Option Signal
deriving DecidableEq

/-- A device of a circuit. -/
structure Device where
  id : NameId
  kind : DeviceKind
  qualifier : Option Int
  inputs : List Input
  outputs : List (Option NameId)
deriving DecidableEq

/-- What a pin is to its device. -/
inductive PinRole where
  | input (pin : NameId)
  | output
  | absent
deriving DecidableEq

namespace Device

/-- Whether a pin is an input of the device. -/
def hasInput (d : Device) : Option NameId → Bool
  | none => false
  | some pin => d.inputs.any (·.pin == pin)

/-- Whether a pin is an output of the device. -/
def hasOutput (d : Device) (pin : Option NameId) : Bool := d.outputs.contains pin

/-- What a pin is to the device. -/
def role (d : Device) (pin : Option NameId) : PinRole :=
  match pin.filter (fun p => d.hasInput (some p)) with
  | some p => .input p
  | none => if d.hasOutput pin then .output else .absent

/-- The signal that drives an input. -/
def source? (d : Device) (pin : NameId) : Option Signal :=
  (d.inputs.find? (·.pin == pin)).bind Input.source

/-- Whether every input is driven. -/
def isDriven (d : Device) : Bool := d.inputs.all (·.source.isSome)

/-- Let a signal drive an input. -/
def drive (d : Device) (pin : NameId) (source : Signal) : Device :=
  { d with inputs := d.inputs.map fun i => if i.pin = pin then ⟨pin, some source⟩ else i }

theorem role_eq_input_iff {d : Device} {pin : Option NameId} {p : NameId} :
    d.role pin = .input p ↔ pin = some p ∧ d.hasInput pin = true := by
  cases pin with
  | none => cases h : d.hasOutput none <;> simp [role, hasInput, h]
  | some q =>
      cases h : d.hasInput (some q) with
      | true => simp [role, Option.filter, h]
      | false => cases ho : d.hasOutput (some q) <;> simp [role, Option.filter, h, ho]

theorem role_eq_output_iff {d : Device} {pin : Option NameId} :
    d.role pin = .output ↔ d.hasInput pin = false ∧ d.hasOutput pin = true := by
  cases pin with
  | none => cases h : d.hasOutput none <;> simp [role, hasInput, h]
  | some q =>
      cases h : d.hasInput (some q) with
      | true => simp [role, Option.filter, h]
      | false => cases ho : d.hasOutput (some q) <;> simp [role, Option.filter, h, ho]

/-- Driving an input leaves the pins of the device as they are. -/
@[simp] theorem map_pin_drive {d : Device} {pin : NameId} {source : Signal} :
    (d.drive pin source).inputs.map Input.pin = d.inputs.map Input.pin := by
  simp only [drive, List.map_map]
  apply List.map_congr_left
  intro i _
  simp only [Function.comp]
  split
  · next h => exact h.symm
  · rfl

end Device

end LogicNet
