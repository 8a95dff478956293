import LogicNet.Diagnostic.Excerpt
import LogicNet.Parse
import LogicNet.Sink.Basic

/-!
# Reporting diagnostics

A report has one line for each diagnostic and under it, where places are shown, the line of the file
and a caret. It is written as far as the sink takes it. A diagnostic that cannot be written in full
is cut short, the next one is tried all the same, and the first failure is kept for the caller.
-/

namespace LogicNet

/-- The lines that report a diagnostic on a file of the given lines. -/
def Diagnostic.rows (lines : List (List Char)) (locations : Bool) (d : Diagnostic) : List String :=
  d.header ::
    if locations && d.kind.hasCaret then (Excerpt.ofSymbol lines d.anchor).rows else []

/-- A parse together with the report of it. -/
structure Reported (β σ : Type) where
  parsed : Parsed β
  sink : σ
  /-- The first write that failed, until it is asked for. -/
  outputError : Option WriteError

/-- Parse a text and report the diagnostics to a sink. -/
def parseTo {β σ : Type} [NetworkBuilder β] [Sink σ] (names : NameTable) (builder : β)
    (text : String) (locations : Bool) (sink : σ) : Reported β σ :=
  let parsed := parse names builder text
  let lines := Text.lines text.toList
  let written := Sink.writeGroups sink (parsed.diagnostics.map (Diagnostic.rows lines locations))
  { parsed, sink := written.2, outputError := written.1 }

/-- Hand out the write that failed, if it was not handed out before. -/
def Reported.checkOutput {β σ : Type} (r : Reported β σ) : Option WriteError × Reported β σ :=
  (r.outputError, { r with outputError := none })

end LogicNet
