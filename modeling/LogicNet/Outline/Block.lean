import LogicNet.Diagnostic.SyntaxError
import LogicNet.Token.Basic

/-!
# Blocks

A definition file has three blocks: the devices, the connections between them, and the signals to
watch. Each starts with its keyword and ends with a keyword that they share.
-/

namespace LogicNet

/-- The blocks of a definition file. -/
inductive Block where
  | devices
  | connections
  | monitor
deriving DecidableEq

namespace Block

/-- The blocks in the order in which they are written. -/
def all : List Block := [.devices, .connections, .monitor]

/-- The keyword that starts a block. -/
def keyword : Block → Keyword
  | devices => .devices
  | connections => .connections
  | monitor => .monitor

/-- The block that a keyword starts. -/
def ofKeyword? : Keyword → Option Block
  | .devices => some devices
  | .connections => some connections
  | .monitor => some monitor
  | .endBlock | .mainEnd => none

/-- The error where a block is due and something else stands. -/
def missingError : Block → SyntaxError
  | devices => .expectedDevices
  | connections => .expectedConnections
  | monitor => .expectedMonitor

/-- The error where a block starts for a second time. -/
def duplicateError : Block → SyntaxError
  | devices => .extraDevices
  | connections => .extraConnections
  | monitor => .extraMonitor

/-- The error where a declaration is due and no name stands. -/
def strayError : Block → SyntaxError
  | devices => .invalidDeviceType
  | connections | monitor => .invalidDeviceName

theorem ofKeyword?_eq_some_iff {k : Keyword} {b : Block} :
    ofKeyword? k = some b ↔ k = b.keyword := by
  cases k <;> cases b <;> simp [ofKeyword?, keyword]

end Block

end LogicNet
