import LogicNet.NameTable
import LogicNet.Network.Error

/-!
# Builders of networks

The reader of a definition file hands its declarations to a builder, which takes or refuses each one
and may change with every answer. The circuit is one builder; whatever is said about the reader for
every builder does not hang on what a circuit is.
-/

namespace LogicNet

/-- A type whose values can be built up from declarations. -/
class NetworkBuilder (β : Type) where
  /-- Declare a device: its name, the name of its type, and the number given with the type. -/
  makeDevice : β → NameId → NameId → Option Int → Except DeviceError Unit × β
  /-- Connect two pins, each given by a device and perhaps a name. -/
  makeConnection :
    β → NameId → Option NameId → NameId → Option NameId → Except ConnectionError Unit × β
  /-- Watch a pin, given by a device and perhaps a name. -/
  makeMonitor : β → NameId → Option NameId → Except MonitorError Unit × β
  /-- Whether nothing is left to connect. -/
  isComplete : β → Bool

/-- The answer of a builder that changes only when it takes a declaration. -/
def replyOf {ε β : Type} (old : β) : Except ε β → Except ε Unit × β
  | .ok new => (.ok (), new)
  | .error e => (.error e, old)

end LogicNet
