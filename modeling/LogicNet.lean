import LogicNet.Text.Ranges
import LogicNet.Text.Alphabetic
import LogicNet.Text.Numeric
import LogicNet.Text.Blank
import LogicNet.Text.Position
import LogicNet.Text.Lines
import LogicNet.NameTable
import LogicNet.Token.Basic
import LogicNet.Token.Comments
import LogicNet.Token.Stream
import LogicNet.Network.Error
import LogicNet.Network.Builder
import LogicNet.Network.Scripted
import LogicNet.Circuit.Kind
import LogicNet.Circuit.Device
import LogicNet.Circuit.Catalogue
import LogicNet.Circuit.Basic
import LogicNet.Diagnostic.SyntaxError
import LogicNet.Diagnostic.Basic
import LogicNet.Diagnostic.Excerpt
import LogicNet.Outline.Block
import LogicNet.Outline.Declaration
import LogicNet.Outline.Basic
import LogicNet.Outline.Recovery
import LogicNet.Outline.File
import LogicNet.Build.Event
import LogicNet.Build.Basic
import LogicNet.Parse
import LogicNet.Sink.Basic
import LogicNet.Sink.Bounded
import LogicNet.Sink.Scripted
import LogicNet.Report
import LogicNet.File
import LogicNet.CommandLine
import LogicNet.Main
import LogicNet.Proofs.Grammar
import LogicNet.Proofs.Reading
import LogicNet.Proofs.Course
import LogicNet.Proofs.Faults
import LogicNet.Proofs.Sentence
import LogicNet.Proofs.Segment
import LogicNet.Proofs.Omission
import LogicNet.Proofs.Places
import LogicNet.Proofs.Lexing
import LogicNet.Proofs.Scanner
import LogicNet.Proofs.Findings
import LogicNet.Proofs.History
import LogicNet.Proofs.Discipline
import LogicNet.Proofs.Protocol
import LogicNet.Proofs.Contents
import LogicNet.Proofs.Parser
import LogicNet.Proofs.Independence
import LogicNet.Proofs.Accounts
import LogicNet.Proofs.Delivery
import LogicNet.Proofs.Ascent
import LogicNet.Proofs.Meaning
import LogicNet.Proofs.Wiring
import LogicNet.Proofs.Acceptance
import LogicNet.Proofs.Representation
import LogicNet.Proofs.Growth
import LogicNet.Proofs.Repetition
import LogicNet.Proofs.Reporter
import LogicNet.Proofs.Sinks
import LogicNet.Proofs.Transcript
import LogicNet.Proofs.Numbers
import LogicNet.Proofs.Stopping
import LogicNet.Proofs.Relocation
import LogicNet.Proofs.Layout
import LogicNet.Proofs.Rejection
import LogicNet.Proofs.Program
import LogicNet.Proofs.Files
import LogicNet.Proofs.Fitting
import LogicNet.Proofs.Rendering
import LogicNet.Proofs.RoundTrip
import LogicNet.Proofs.InPlace
import LogicNet.Proofs.Additions
import LogicNet.Proofs.Connections
import LogicNet.Proofs.Blame
import LogicNet.Proofs.DeviceTable
import LogicNet.Proofs.Markers
import LogicNet.Proofs.Bounds
import LogicNet.Proofs.Lines
import LogicNet.Proofs.Caret
import LogicNet.Proofs.EnteredNames
import LogicNet.Proofs.Skipping
import LogicNet.Proofs.Limits
import LogicNet.Proofs.Renaming
import LogicNet.Proofs.OtherNames
import LogicNet.Proofs.NameStore
import LogicNet.Proofs.Sessions
