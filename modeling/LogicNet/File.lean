import LogicNet.Report

/-!
# Definition files

A definition file is read as a whole before anything is parsed. Reading fails if there is no such
file, if it is a directory, or if its bytes are no text. It also fails on a path that no file can
have: one with a NUL in it, one that is too long, or one with a name that is too long.
-/

namespace LogicNet

/-- Why a file cannot be read. -/
inductive ReadError where
  | notFound
  | isDirectory
  | notDirectory
  | nameTooLong
  | nulInPath
  | notText
  /-- Another cause, in the words of the system. -/
  | other (message : String)
deriving DecidableEq

/-- What a reader is told. -/
def ReadError.message : ReadError → String
  | notFound => "No such file or directory (os error 2)"
  | isDirectory => "Is a directory (os error 21)"
  | notDirectory => "Not a directory (os error 20)"
  | nameTooLong => "File name too long (os error 36)"
  | nulInPath => "file name contained an unexpected NUL byte"
  | notText => "stream did not contain valid UTF-8"
  | other message => message

/-- Why there is no verdict on a file. -/
inductive Failure where
  /-- The file of this name cannot be read. -/
  | unreadable (file : String) (e : ReadError)
  /-- The report cannot be written. -/
  | unwritable (e : WriteError)
deriving DecidableEq

/-- What a reader is told. -/
def Failure.message : Failure → String
  | unreadable file e => "Failed to read definition file '" ++ file ++ "': " ++ e.message
  | unwritable e => "Failed to write diagnostics: " ++ e.message

/-- Decode the bytes of a file. A byte order mark is a character like any other. -/
def decodeFile (bytes : ByteArray) : Except ReadError String :=
  match String.fromUTF8? bytes with
  | some text => .ok text
  | none => .error .notText

/-! ## Paths -/

/-- A name in a directory has at most so many bytes. -/
def maxNameBytes : Nat := 255

/-- A path has at most so many bytes. -/
def maxPathBytes : Nat := 4095

/-- Why a path cannot be followed, whatever stands in the directories. -/
def pathError? (path : String) : Option ReadError :=
  if '\x00' ∈ path.toList then some .nulInPath
  else if path.isEmpty then some .notFound
  else if maxPathBytes < path.utf8ByteSize then some .nameTooLong
  else none

/-! ## A directory -/

/-- What stands at a path. -/
inductive Entry where
  | file (bytes : ByteArray)
  | directory

/--
What is below a directory, by the names on the way to it. It stands for a file system wherever what
is read must not depend on one.
-/
structure Directory where
  entries : List (List String × Entry)

namespace Directory

/-- What stands at the end of a way of names. There is a directory wherever a way goes on. -/
def entry? (d : Directory) (way : List String) : Option Entry :=
  match d.entries.find? (·.1 == way) with
  | some (_, entry) => some entry
  | none => if way.isEmpty || d.entries.any (way.isPrefixOf ·.1) then some .directory else none

/--
Follow the parts of a path, and read the file to which they lead. Nothing is known of what stands
outside the directory but that there are directories above it. The length of a name matters only
where it is looked up, so behind a name that is absent or a file it does not.
-/
def readAlong (d : Directory) : Option (List String) → List String → Except ReadError String
  | none, [] => .error .isDirectory
  | none, part :: parts =>
    if part ∈ ["", ".", ".."] then d.readAlong none parts
    else if maxNameBytes < part.utf8ByteSize then .error .nameTooLong
    else .error .notFound
  | some here, [] =>
    match d.entry? here with
    | none => .error .notFound
    | some .directory => .error .isDirectory
    | some (.file bytes) => decodeFile bytes
  | some here, part :: parts =>
    match d.entry? here with
    | none => .error .notFound
    | some (.file _) => .error .notDirectory
    | some .directory =>
      if part ∈ ["", "."] then d.readAlong (some here) parts
      else if part = ".." then d.readAlong (if here.isEmpty then none else some here.dropLast) parts
      else if maxNameBytes < part.utf8ByteSize then .error .nameTooLong
      else d.readAlong (some (here ++ [part])) parts

/-- The text of the file at a path. -/
def read (d : Directory) (path : String) : Except ReadError String :=
  match pathError? path with
  | some e => .error e
  | none => d.readAlong (if path.startsWith "/" then none else some []) (path.splitOn "/")

end Directory

/-! ## Parsing a file -/

/-- What came of parsing a file: a verdict or a failure, and how things stand then. -/
structure FileParse (β σ : Type) where
  verdict : Except Failure Bool
  names : NameTable
  builder : β
  sink : σ

/-- Parse a file, where `contents` is what reading it gave. -/
def parseFile {β σ : Type} [NetworkBuilder β] [Sink σ] (names : NameTable) (builder : β)
    (file : String) (contents : Except ReadError String) (locations : Bool) (sink : σ) :
    FileParse β σ :=
  match contents with
  | .error e => { verdict := .error (.unreadable file e), names, builder, sink }
  | .ok text =>
    let reported := parseTo names builder text locations sink
    { verdict :=
        match reported.outputError with
        | some e => .error (.unwritable e)
        | none => .ok reported.parsed.ok
      names := reported.parsed.names
      builder := reported.parsed.builder
      sink := reported.sink }

end LogicNet
