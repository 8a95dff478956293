import LogicNet.Network.Error

/-!
# Kinds of devices

There are eight kinds. A kind settles which qualifier a device takes and which pins it has: the
qualifier is the number of inputs of a gate, the half period of a clock, or the state of a switch.
-/

namespace LogicNet

/-- The kinds of devices. -/
inductive DeviceKind where
  | and
  | nand
  | or
  | nor
  /-- Exclusive or, of two inputs. -/
  | xor
  /-- A square wave. -/
  | clock
  /-- A constant. -/
  | switch
  /-- A flip-flop. -/
  | dtype
deriving DecidableEq

/-- The largest number of inputs of a gate. -/
def maxGateInputs : Nat := 16

/-- The names of gate inputs, in pin order. -/
def gateInputLabels : List String :=
  ["I1", "I2", "I3", "I4", "I5", "I6", "I7", "I8",
   "I9", "I10", "I11", "I12", "I13", "I14", "I15", "I16"]

/-- The names of flip-flop inputs, in pin order. -/
def flipFlopInputLabels : List String := ["DATA", "CLK", "SET", "CLEAR"]

/-- The names of flip-flop outputs, in pin order. -/
def flipFlopOutputLabels : List String := ["Q", "QBAR"]

/-- What a kind asks of the qualifier. -/
inductive QualifierRule where
  /-- There must be none. -/
  | forbidden
  /-- There must be one, from `least` up to `greatest` if that is given. -/
  | required (least : Int) (greatest : Option Int)
deriving DecidableEq

namespace QualifierRule

/-- Whether a qualifier, or its absence, keeps to the rule. -/
def Admits : QualifierRule → Option Int → Prop
  | forbidden, q => q = none
  | required least greatest, q => ∃ n, q = some n ∧ least ≤ n ∧ ∀ g ∈ greatest, n ≤ g

/-- Check a qualifier against the rule. -/
def check : QualifierRule → Option Int → Except DeviceError Unit
  | forbidden, none => .ok ()
  | forbidden, some _ => .error .qualifierPresent
  | required _ _, none => .error .noQualifier
  | required least greatest, some n =>
    if least ≤ n ∧ greatest.all (fun g => n ≤ g) then .ok () else .error .invalidQualifier

theorem check_eq_ok_iff {rule : QualifierRule} {q : Option Int} :
    rule.check q = .ok () ↔ rule.Admits q := by
  cases rule with
  | forbidden => cases q <;> simp [check, Admits]
  | required least greatest =>
      cases q with
      | none => simp [check, Admits]
      | some n => cases greatest <;> simp [check, Admits]

end QualifierRule

namespace DeviceKind

/-- All kinds. -/
def all : List DeviceKind := [.and, .nand, .or, .nor, .xor, .clock, .switch, .dtype]

/-- How a kind is written. -/
def spelling : DeviceKind → String
  | and => "AND"
  | nand => "NAND"
  | or => "OR"
  | nor => "NOR"
  | xor => "XOR"
  | clock => "CLOCK"
  | switch => "SWITCH"
  | dtype => "DTYPE"

/-- The kind that is written `word`, letter for letter. -/
def ofSpelling? (word : String) : Option DeviceKind := all.find? (·.spelling == word)

/-- Whether a device of the kind has as many inputs as its qualifier says. -/
def isGate : DeviceKind → Bool
  | and | nand | or | nor => true
  | xor | clock | switch | dtype => false

/-- What the kind asks of the qualifier. -/
def qualifierRule : DeviceKind → QualifierRule
  | and | nand | or | nor => .required 1 (some maxGateInputs)
  | clock => .required 1 none
  | switch => .required 0 (some 1)
  | xor | dtype => .forbidden

theorem mem_all (k : DeviceKind) : k ∈ all := by cases k <;> decide

theorem ofSpelling?_eq_some_iff {word : String} {k : DeviceKind} :
    ofSpelling? word = some k ↔ k.spelling = word := by
  constructor
  · intro h
    simpa using List.find?_some h
  · rintro rfl
    cases k <;> decide

end DeviceKind

end LogicNet
