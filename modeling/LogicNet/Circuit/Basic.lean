import LogicNet.Circuit.Catalogue
import LogicNet.Network.Builder

/-!
# Circuits

A circuit grows by devices, connections and monitors, and by nothing else: a refused declaration
leaves it as it is. A connection joins an output to an input that nothing drives yet. It may be
written from either end.
-/

namespace LogicNet

/-- A circuit: devices and monitored signals, each in the order of declaration. -/
structure Circuit where
  devices : List Device
  /-- Where the device of each name stands among the devices. -/
  index : List (NameId × Nat)
  monitors : List Signal
  /-- How many connections were made. -/
  connectionCount : Nat
  catalogue : Catalogue
deriving DecidableEq

namespace Circuit

/-- The circuit without devices over a table that holds the catalogue's vocabulary. -/
def empty (names : NameTable) : Circuit := ⟨[], [], [], 0, .ofNames names⟩

/-- Enter the vocabulary, and start a circuit over the table. -/
def start (names : NameTable) : NameTable × Circuit :=
  let names := names.internAll Catalogue.vocabulary
  (names, empty names)

/-- The device of a name. -/
def device? (c : Circuit) (id : NameId) : Option Device :=
  (c.index.lookup id).bind fun i => c.devices[i]?

/-- Whether every input of every device is driven. -/
def isConnected (c : Circuit) : Bool := c.devices.all Device.isDriven

/-- Add a device at the end, if its name is free, its type is known and its qualifier fits. -/
def addDevice (c : Circuit) (id kind : NameId) (qualifier : Option Int) :
    Except DeviceError Circuit :=
  if (c.index.lookup id).isSome then .error .devicePresent
  else
    match c.catalogue.kind? kind with
    | none => .error .badDevice
    | some kind => do
      let device ← c.catalogue.device id kind qualifier
      return { c with
        devices := c.devices ++ [device]
        index := c.index ++ [(id, c.devices.length)] }

/-- Let a signal drive an input of a device, if nothing drives that input yet. -/
def drive (c : Circuit) (d : Device) (pin : NameId) (source : Signal) :
    Except ConnectionError Circuit :=
  match d.source? pin with
  | some _ => .error .inputConnected
  | none => .ok { c with
      devices := c.devices.map fun e => if e.id = d.id then e.drive pin source else e
      connectionCount := c.connectionCount + 1 }

/-- Connect two pins, one an output and one an input, whichever is named first. -/
def connect (c : Circuit) (first : NameId) (firstPin : Option NameId)
    (second : NameId) (secondPin : Option NameId) : Except ConnectionError Circuit :=
  match c.device? first, c.device? second with
  | none, _ => .error .outputDeviceAbsent
  | some _, none => .error .inputDeviceAbsent
  | some d, some e =>
    match d.role firstPin, e.role secondPin with
    | .input p, .output => c.drive d p ⟨second, secondPin⟩
    | .output, .input q => c.drive e q ⟨first, firstPin⟩
    | .input _, .input _ => .error .inputToInput
    | .output, .output => .error .outputToOutput
    | _, _ => .error .pinAbsent

/-- Watch an output that is not watched yet. -/
def addMonitor (c : Circuit) (id : NameId) (pin : Option NameId) : Except MonitorError Circuit :=
  match c.device? id with
  | none => .error .deviceAbsent
  | some d =>
    if !d.hasOutput pin then .error .notOutput
    else if ⟨id, pin⟩ ∈ c.monitors then .error .monitorPresent
    else .ok { c with monitors := c.monitors ++ [⟨id, pin⟩] }

end Circuit

instance : NetworkBuilder Circuit where
  makeDevice c id kind qualifier := replyOf c (c.addDevice id kind qualifier)
  makeConnection c first firstPin second secondPin :=
    replyOf c (c.connect first firstPin second secondPin)
  makeMonitor c id pin := replyOf c (c.addMonitor id pin)
  isComplete c := c.isConnected

end LogicNet
