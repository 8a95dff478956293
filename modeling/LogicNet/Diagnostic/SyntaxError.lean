/-!
# Errors of form, and how the reader goes on after them

A file may break the form of the language in twenty ways. For each there is a message, and a plan
that tells how much is shown and where reading goes on.
-/

namespace LogicNet

/-- The ways in which a file breaks the form of the language. -/
inductive SyntaxError where
  | extraSemicolon
  | extraDevices
  | extraConnections
  | extraMonitor
  | noNumber
  | noSemicolon
  | invalidDeviceName
  | noEquals
  | noEnd
  | invalidDeviceType
  | invalidOutputLabel
  | noDot
  | noDash
  | expectedDevices
  | expectedConnections
  | expectedMonitor
  | noMainEnd
  | invalidInputLabel
  | incompleteNetwork
  | unterminatedComment
deriving DecidableEq

/-- Where reading goes on after an error. -/
inductive Recovery where
  /-- Where it is. -/
  | stay
  /-- Behind the next semicolon, or at the end of the block. -/
  | inBlock
  /-- At the next block that was not entered yet, or at the end of the file. -/
  | outOfBlock
deriving DecidableEq

/-- What happens once an error is noted. -/
structure RecoveryPlan where
  /-- Show the line and mark the place. -/
  caret : Bool
  /-- Pass over the symbol at fault before anything else. -/
  advance : Bool
  recovery : Recovery
deriving DecidableEq

namespace SyntaxError

/-- All errors of form. -/
def all : List SyntaxError :=
  [.extraSemicolon, .extraDevices, .extraConnections, .extraMonitor, .noNumber, .noSemicolon,
   .invalidDeviceName, .noEquals, .noEnd, .invalidDeviceType, .invalidOutputLabel, .noDot, .noDash,
   .expectedDevices, .expectedConnections, .expectedMonitor, .noMainEnd, .invalidInputLabel,
   .incompleteNetwork, .unterminatedComment]

/-- What a reader is told. -/
def message : SyntaxError → String
  | extraSemicolon => "Extra semicolons added"
  | extraDevices => "DEVICES already called"
  | extraConnections => "CONNECTIONS already called"
  | extraMonitor => "MONITOR already called"
  | noNumber => "Not a number"
  | noSemicolon => "Expected a semicolon here"
  | invalidDeviceName => "Not a valid device name"
  | noEquals => "Expected an equals sign here"
  | noEnd => "Expected an 'END' statement"
  | invalidDeviceType => "Not a valid supported device type"
  | invalidOutputLabel => "Not a valid type of output label"
  | noDot => "Expected a dot here"
  | noDash => "Expected a dash here"
  | expectedDevices => "Expected a 'DEVICES' statement here"
  | expectedConnections => "Expected a 'CONNECTIONS' statement here"
  | expectedMonitor => "Expected a 'MONITOR' statement here"
  | noMainEnd => "Expected a 'MAIN_END' statement here"
  | invalidInputLabel => "Invalid input label"
  | incompleteNetwork => "Not all inputs are connected"
  | unterminatedComment => "Unterminated comment present"

/-- How reading goes on. -/
def plan : SyntaxError → RecoveryPlan
  | extraSemicolon | noEnd | unterminatedComment => ⟨true, false, .stay⟩
  | extraDevices | extraConnections | extraMonitor => ⟨true, true, .outOfBlock⟩
  | noNumber | noSemicolon | invalidDeviceName | noEquals | invalidDeviceType
  | invalidOutputLabel | noDot | noDash | invalidInputLabel => ⟨true, false, .inBlock⟩
  | expectedDevices | expectedConnections | expectedMonitor | noMainEnd =>
    ⟨true, false, .outOfBlock⟩
  | incompleteNetwork => ⟨false, false, .stay⟩

/--
Whether nothing is built after the error. Surplus semicolons and open inputs leave no doubt about
what the rest of the file means; every other error may.
-/
def blocksBuilding : SyntaxError → Bool
  | extraSemicolon | incompleteNetwork => false
  | _ => true

theorem mem_all (e : SyntaxError) : e ∈ all := by cases e <;> decide

end SyntaxError

end LogicNet
