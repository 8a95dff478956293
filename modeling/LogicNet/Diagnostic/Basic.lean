import LogicNet.Diagnostic.SyntaxError
import LogicNet.Network.Error
import LogicNet.Token.Basic

/-!
# Diagnostics

A diagnostic says what is wrong, and at which symbol: either the form of the file, or a declaration
that the network refused.
-/

namespace LogicNet

/-- What is wrong. -/
inductive ErrorKind where
  /-- The form of the file. -/
  | syntactic (e : SyntaxError)
  /-- A device that the network refused. -/
  | device (e : DeviceError)
  /-- A connection that the network refused. -/
  | connection (e : ConnectionError)
  /-- A monitor that the network refused. -/
  | monitor (e : MonitorError)
deriving DecidableEq

namespace ErrorKind

/-- What a reader is told. -/
def message : ErrorKind → String
  | syntactic e => e.message
  | device e => e.message
  | connection e => e.message
  | monitor e => e.message

/-- Whether the network raised the error. -/
def isSemantic : ErrorKind → Bool
  | syntactic _ => false
  | device _ | connection _ | monitor _ => true

/-- Whether the place of the error is shown. -/
def hasCaret : ErrorKind → Bool
  | syntactic e => e.plan.caret
  | device _ | connection _ | monitor _ => true

/-- Whether nothing is built after the error. -/
def blocksBuilding : ErrorKind → Bool
  | syntactic e => e.blocksBuilding
  | device _ | connection _ | monitor _ => false

end ErrorKind

/-- An error at a symbol of the file. -/
structure Diagnostic where
  kind : ErrorKind
  anchor : Symbol
deriving DecidableEq

namespace Diagnostic

/-- Where the error is. -/
def pos (d : Diagnostic) : Text.Position := d.anchor.pos

/-- The place and the message, on one line. -/
def header (d : Diagnostic) : String :=
  "ERROR (line " ++ toString d.pos.line ++ ", column " ++ toString d.pos.column ++ "): " ++
    d.kind.message

end Diagnostic

end LogicNet
