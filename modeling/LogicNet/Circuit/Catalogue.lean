import LogicNet.Circuit.Device

/-!
# The catalogue of devices

A circuit knows types and pins by the numbers of their names. Its catalogue holds those numbers,
for the eight types and the twenty-two pins, and makes new devices from them.
-/

namespace LogicNet

/-- The numbers of the names of types and pins. -/
structure Catalogue where
  kinds : List (NameId × DeviceKind)
  gateInputs : List NameId
  flipFlopInputs : List NameId
  flipFlopOutputs : List NameId
deriving DecidableEq

namespace Catalogue

/-- The names that a catalogue needs, in the order in which it enters them. -/
def vocabulary : List String :=
  DeviceKind.all.map DeviceKind.spelling ++ gateInputLabels ++ flipFlopInputLabels ++
    flipFlopOutputLabels

/-- The catalogue over a table that holds the vocabulary. -/
def ofNames (names : NameTable) : Catalogue where
  kinds := DeviceKind.all.map fun kind => (names.idFor kind.spelling, kind)
  gateInputs := gateInputLabels.map names.idFor
  flipFlopInputs := flipFlopInputLabels.map names.idFor
  flipFlopOutputs := flipFlopOutputLabels.map names.idFor

/-- The kind whose spelling has the number `id`. -/
def kind? (c : Catalogue) (id : NameId) : Option DeviceKind :=
  (c.kinds.find? (·.1 == id)).map Prod.snd

/-- The inputs of a device of a kind, where the qualifier is one that the kind admits. -/
def inputs (c : Catalogue) : DeviceKind → Option Int → List NameId
  | .and, q | .nand, q | .or, q | .nor, q => c.gateInputs.take (q.getD 0).toNat
  | .xor, _ => c.gateInputs.take 2
  | .clock, _ | .switch, _ => []
  | .dtype, _ => c.flipFlopInputs

/-- The outputs of a device of a kind. -/
def outputs (c : Catalogue) : DeviceKind → List (Option NameId)
  | .dtype => c.flipFlopOutputs.map some
  | _ => [none]

/-- A device none of whose inputs is driven, unless the kind does not admit the qualifier. -/
def device (c : Catalogue) (id : NameId) (kind : DeviceKind) (qualifier : Option Int) :
    Except DeviceError Device := do
  kind.qualifierRule.check qualifier
  return { id, kind, qualifier
           inputs := (c.inputs kind qualifier).map (⟨·, none⟩)
           outputs := c.outputs kind }

end Catalogue

end LogicNet
