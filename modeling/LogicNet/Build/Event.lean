import LogicNet.Diagnostic.Basic
import LogicNet.NameTable
import LogicNet.Outline.Declaration

/-!
# The course of a parse

Everything that a parse does to the outside is an event: a call of the builder and its answer, the
check whether the network is complete, or a diagnostic. The list of events, in order, is the whole
account of a parse.

Where the builder refuses a declaration, the diagnostic points at the word that is to blame, which
depends on the cause.
-/

namespace LogicNet

/-- A call of a builder. -/
inductive Call where
  | device (name kind : NameId) (qualifier : Option Int)
  | connection (outDevice : NameId) (outPin : Option NameId) (inDevice : NameId)
      (inPin : Option NameId)
  | monitor (device : NameId) (pin : Option NameId)
deriving DecidableEq

/-- One step of a parse that can be seen from outside. -/
inductive Event where
  /-- The builder was called, and perhaps refused. -/
  | called (call : Call) (refusal : Option ErrorKind)
  /-- The builder was asked whether the network is complete. -/
  | checked (complete : Bool)
  /-- A diagnostic was made. -/
  | reported (d : Diagnostic)
deriving DecidableEq

namespace Event

/-- The diagnostic of an event, if it is one. -/
def diagnostic? : Event → Option Diagnostic
  | reported d => some d
  | _ => none

/-- The call of an event, if it is one. -/
def call? : Event → Option Call
  | called c _ => some c
  | _ => none

/-- Whether an event is the check for completeness. -/
def isCheck : Event → Bool
  | checked _ => true
  | _ => false

end Event

/-- The word to blame for a refused device. -/
def DeviceDecl.anchor (d : DeviceDecl) : DeviceError → Symbol
  | .devicePresent => d.name.symbol
  | .badDevice | .noQualifier => d.kind.symbol
  | .qualifierPresent | .invalidQualifier => (d.qualifier.map Numeral.symbol).getD d.kind.symbol

/-- The word to blame for a refused connection. -/
def ConnectionDecl.anchor (d : ConnectionDecl) : ConnectionError → Symbol
  | .outputDeviceAbsent | .pinAbsent => d.outDevice.symbol
  | .inputDeviceAbsent | .outputToOutput => d.inDevice.symbol
  | .inputConnected => d.inPin.symbol
  | .inputToInput => (d.outPin.getD d.outDevice).symbol

/-- The word to blame for a refused monitor. -/
def MonitorDecl.anchor (d : MonitorDecl) : MonitorError → Symbol
  | .notOutput | .monitorPresent | .deviceAbsent => d.device.symbol

end LogicNet
