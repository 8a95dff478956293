import LogicNet.Build.Basic
import LogicNet.Outline.File

/-!
# Parsing a definition file

A file is parsed in two passes. The first reads its text and knows nothing of networks; the second
hands what was found to a builder. So the builder has no say in how a file is read. Which symbols
are looked at, which names are entered, and which faults of form are found is settled by the text.
-/

namespace LogicNet

/-- What came of parsing a file. -/
structure Parsed (β : Type) where
  names : NameTable
  builder : β
  events : List Event
  /-- The symbol at which reading stopped. -/
  stop : Symbol

namespace Parsed

variable {β : Type}

/-- The diagnostics, in order. -/
def diagnostics (r : Parsed β) : List Diagnostic := r.events.filterMap Event.diagnostic?

/-- How many errors were found. -/
def errorCount (r : Parsed β) : Nat := r.diagnostics.length

/-- Whether nothing was wrong. -/
def ok (r : Parsed β) : Bool := r.diagnostics.isEmpty

/-- The calls of the builder, in order. -/
def calls (r : Parsed β) : List Call := r.events.filterMap Event.call?

/-- How often the builder was asked whether the network is complete. -/
def checks (r : Parsed β) : Nat := r.events.countP Event.isCheck

end Parsed

/-- Parse a text, entering its names in a table and building into a builder. -/
def parse {β : Type} [NetworkBuilder β] (names : NameTable) (builder : β) (text : String) :
    Parsed β :=
  let stream := TokenStream.ofText text
  let outline := Outline.ofStream stream
  let names := (names.internAll Keyword.spellings).internAll (stream.namesBefore outline.rest)
  let built := (Progress.start builder).steps names.idFor outline.items
  { names
    builder := built.2.builder
    events := built.1
    stop := stream.ending.current outline.rest }

end LogicNet
