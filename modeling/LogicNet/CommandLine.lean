import LogicNet.Circuit.Basic
import LogicNet.File

/-!
# The command line

The program checks one definition file. Flags and the file may come in any order, and two dashes on
their own end the flags. Arguments are taken from left to right, and the first one that settles what
to do does so: a call for help before a mistake is help, and behind it a mistake.
-/

namespace LogicNet

/-- The flags. -/
inductive Flag where
  | noLocations
  | verbose
  | help
  | version
deriving DecidableEq

namespace Flag

/-- The flag that is written with two dashes before `name`. -/
def ofName? : String → Option Flag
  | "no-locations" => some noLocations
  | "verbose" => some verbose
  | "help" => some help
  | "version" => some version
  | _ => none

/-- The flag that is written with one dash before `letter`, or before a run of letters. -/
def ofLetter? : Char → Option Flag
  | 'v' => some verbose
  | 'h' => some help
  | 'V' => some version
  | _ => none

end Flag

/-- What the program is asked to do. -/
inductive Command where
  | help
  | version
  /-- The arguments make no sense. -/
  | misuse
  /-- Check a file, and show the places of errors or not. -/
  | check (file : String) (locations : Bool)
deriving DecidableEq

/-- What the arguments have said so far. -/
structure Choices where
  file : Option String
  noLocations : Bool
  verbose : Bool
deriving DecidableEq

namespace Choices

/-- Before the first argument. -/
def start : Choices := ⟨none, false, false⟩

/-- Take a flag. No flag may be given twice, and two of them settle what to do. -/
def flag (c : Choices) : Flag → Except Command Choices
  | .help => .error .help
  | .version => .error .version
  | .noLocations => if c.noLocations then .error .misuse else .ok { c with noLocations := true }
  | .verbose => if c.verbose then .error .misuse else .ok { c with verbose := true }

/-- Take a file. There is one, and its name is not empty. -/
def name (c : Choices) (file : String) : Except Command Choices :=
  if c.file.isSome || file.isEmpty then .error .misuse else .ok { c with file := some file }

/-- Take what may be a flag, unless it is unknown. -/
def flag? (c : Choices) : Option Flag → Except Command Choices
  | none => .error .misuse
  | some f => c.flag f

/-- Take an argument that stands before the end of the flags. A dash alone is a file. -/
def argument (c : Choices) (arg : String) : Except Command Choices :=
  match arg.toList with
  | '-' :: '-' :: name => c.flag? (Flag.ofName? (String.ofList name))
  | '-' :: letter :: letters =>
    (letter :: letters).foldlM (fun c letter => c.flag? (Flag.ofLetter? letter)) c
  | _ => c.name arg

/-- Take arguments, from left to right. -/
def arguments (c : Choices) : List String → Except Command Choices
  | [] => .ok c
  | arg :: args =>
    if arg = "--" then args.foldlM name c
    else do
      let c ← c.argument arg
      c.arguments args

end Choices

/-- What the arguments ask for. -/
def Command.ofArguments (args : List String) : Command :=
  match Choices.start.arguments args with
  | .error command => command
  | .ok c =>
    match c.file with
    | none => .misuse
    | some file => .check file !c.noLocations

/-- The lines of the help. -/
def helpLines : List String :=
  ["Parser and network builder for logic circuit definition files",
   "",
   "Usage: logsim [OPTIONS] <DEFINITION_FILE>",
   "",
   "Arguments:",
   "  <DEFINITION_FILE>  Path to the circuit definition file",
   "",
   "Options:",
   "      --no-locations  Do not print the source line and caret under each error",
   "  -v, --verbose       Log parser progress to stderr",
   "  -h, --help          Print help",
   "  -V, --version       Print version"]

/-- The lines that tell the version. -/
def versionLines : List String := ["logsim 0.1.0"]

/-- How a run ends: a code, what was written, and a line for the error stream. -/
structure Exit (σ : Type) where
  code : Nat
  sink : σ
  error : Option String

/-- The end of a run without a verdict. -/
def Failure.exit {σ : Type} (f : Failure) (sink : σ) : Exit σ :=
  { code := 2, sink, error := some ("Error: " ++ f.message) }

/-- What is written last: an account of the circuit, or the number of errors. -/
def closingLines (r : Parsed Circuit) : List String :=
  if r.ok then
    (toString r.builder.devices.length ++ " devices, " ++ toString r.builder.connectionCount ++
      " connections, " ++ toString r.builder.monitors.length ++ " monitors") ::
      r.builder.monitors.map fun signal => "  " ++ signal.text r.names
  else ["Parse failed with " ++ toString r.errorCount ++ " error(s)"]

/-- Check a file and write the report, where `contents` is what reading the file gave. -/
def checkFile {σ : Type} [Sink σ] (file : String) (contents : Except ReadError String)
    (locations : Bool) (sink : σ) : Exit σ :=
  match contents with
  | .error e => (Failure.unreadable file e).exit sink
  | .ok text =>
    let start := Circuit.start .empty
    let reported := parseTo start.1 start.2 text locations sink
    match reported.outputError with
    | some e => (Failure.unwritable e).exit reported.sink
    | none =>
      match Sink.writeLines reported.sink (closingLines reported.parsed) with
      | (some e, sink) => (Failure.unwritable e).exit sink
      | (none, sink) => { code := if reported.parsed.ok then 0 else 1, sink, error := none }

/-- Do what is asked. Help that cannot be written is no failure. -/
def Command.run {σ : Type} [Sink σ] (read : String → Except ReadError String) (sink : σ) :
    Command → Exit σ
  | .help => { code := 0, sink := (Sink.writeLines sink helpLines).2, error := none }
  | .version => { code := 0, sink := (Sink.writeLines sink versionLines).2, error := none }
  | .misuse => { code := 2, sink, error := none }
  | .check file locations => checkFile file (read file) locations sink

end LogicNet
