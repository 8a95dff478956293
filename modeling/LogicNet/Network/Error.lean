/-!
# Why a declaration is refused

A network refuses a declaration for one of the causes below. Each cause has one message; the two
sides of a connection have causes of their own, so that a report can point at the right one.
-/

namespace LogicNet

/-- Why a device is refused. -/
inductive DeviceError where
  | devicePresent
  | noQualifier
  | invalidQualifier
  | qualifierPresent
  | badDevice
deriving DecidableEq

/-- What a reader is told about a refused device. -/
def DeviceError.message : DeviceError → String
  | devicePresent => "Device by this name already exists"
  | noQualifier => "No qualifier given and device type requires one"
  | invalidQualifier => "Qualifier is invalid for device type"
  | qualifierPresent => "Qualifier given but one was not allowed with device type"
  | badDevice => "Device Type given is not a valid device type"

/-- Why a connection is refused. -/
inductive ConnectionError where
  /-- There is no device of the name before the dash. -/
  | outputDeviceAbsent
  /-- There is no device of the name after the dash. -/
  | inputDeviceAbsent
  | inputConnected
  | inputToInput
  | outputToOutput
  | pinAbsent
deriving DecidableEq

/-- What a reader is told about a refused connection. -/
def ConnectionError.message : ConnectionError → String
  | outputDeviceAbsent => "Device name does not exist"
  | inputDeviceAbsent => "Device name does not exist"
  | inputConnected => "Input is already connected"
  | inputToInput => "Cannot connect an input to an input"
  | outputToOutput => "Cannot connect output to output"
  | pinAbsent => "Port does not exist"

/-- Why a monitor is refused. -/
inductive MonitorError where
  | notOutput
  | monitorPresent
  | deviceAbsent
deriving DecidableEq

/-- What a reader is told about a refused monitor. -/
def MonitorError.message : MonitorError → String
  | notOutput => "Can only monitor outputs"
  | monitorPresent => "Output already being monitored"
  | deviceAbsent => "Device does not exist"

end LogicNet
