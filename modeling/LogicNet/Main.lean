import LogicNet.CommandLine
import LogicNet.Sink.Bounded

/-!
# The program

Reads the file that the command line names, runs the command, and passes on what it wrote.
-/

namespace LogicNet

/-- Read a file, and tell why it cannot be read. -/
def readContents (file : String) : IO (Except ReadError String) := do
  try
    return decodeFile (← IO.FS.readBinFile file)
  catch
    | .noFileOrDirectory .. => return .error .notFound
    | .inappropriateType _ 21 _ => return .error .isDirectory
    | .inappropriateType .. => return .error .notDirectory
    | .invalidArgument .. => return .error ((pathError? file).getD .nameTooLong)
    | e => return .error (.other (toString e))

/-- Write bytes to the standard output, and tell why they cannot be written. -/
def writeOutput (bytes : ByteArray) : IO (Option WriteError) := do
  try
    let stdout ← IO.getStdout
    stdout.write bytes
    stdout.flush
    return none
  catch
    | .resourceExhausted .. => return some .noSpace
    | e => return some (.other (toString e))

end LogicNet

open LogicNet

/-- The program: its exit code is zero for a good file, one for a bad one, and two for a failure. -/
def main (args : List String) : IO UInt32 := do
  let command := Command.ofArguments args
  let contents ←
    match command with
    | .check file _ => readContents file
    | _ => pure (.error .notFound)
  let exit := command.run (fun _ => contents) BoundedSink.unbounded
  let written ← writeOutput ⟨exit.sink.accepted⟩
  match command, exit.error, written with
  | .misuse, _, _ =>
    IO.eprintln "error: one definition file is needed (see --help)"
    return exit.code.toUInt32
  | .check _ _, none, some e =>
    IO.eprintln ("Error: " ++ (Failure.unwritable e).message)
    return 2
  | _, some e, _ =>
    IO.eprintln e
    return exit.code.toUInt32
  | _, none, _ => return exit.code.toUInt32
