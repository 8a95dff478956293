import LogicNet.File
import LogicNet.Network.Scripted
import LogicNet.Proofs.History
import LogicNet.Proofs.Independence
import LogicNet.Proofs.Reporter
import LogicNet.Sink.Bounded
import LogicNet.Sink.Scripted

/-!
# A broken sink never changes a parse

A sink may take part of a write, fail, recover and fail again. What it does stays with it. Two runs
of the reporter on one text, over two sinks and with places shown or not, mirror one and the same
parser, so they end alike in everything but the output (`Reporter.run_of_sinks`). Of the writes that
fail the first is kept, and it is handed out once.

The reporter writes while it reads, and the report of a file is written at the end. Both write the
same lines in the same order, so a sink cannot tell them apart (`Reporter.reported_run`).
-/

namespace LogicNet

/-! ## Writes that fail -/

namespace Output

variable {σ : Type} [Sink σ]

/-- The writes that fail where diagnostics are written, in order: at most one for each of them. -/
def failures (o : Output σ) : List Diagnostic → List WriteError
  | [] => []
  | d :: ds =>
    (Sink.writeLines o.sink (d.rows o.lines o.locations)).1.toList ++ (o.write d).failures ds

/-- **Only the first failure is kept.** -/
theorem error_writeAll (o : Output σ) (ds : List Diagnostic) :
    (o.writeAll ds).error = o.error.or (o.failures ds).head? := by
  induction ds generalizing o with
  | nil => exact (Option.or_none).symm
  | cons d ds ih =>
      have hwrite : (o.write d).error =
          o.error.or (Sink.writeLines o.sink (d.rows o.lines o.locations)).1 := rfl
      rw [writeAll, List.foldl_cons, ← writeAll, ih, hwrite, Option.or_assoc, failures,
        List.head?_append, Option.head?_toList]

/-- Diagnostics that are written one by one are written like a report. -/
theorem writeAll_eq (o : Output σ) (ds : List Diagnostic) :
    o.writeAll ds =
      let written := Sink.writeGroups o.sink (ds.map (Diagnostic.rows o.lines o.locations))
      { o with sink := written.2, error := o.error.or written.1 } := by
  induction ds generalizing o with
  | nil =>
      simp only [writeAll, List.foldl_nil, List.map_nil, Sink.writeGroups, Option.or_none]
  | cons d ds ih =>
      rw [writeAll, List.foldl_cons, ← writeAll, ih]
      simp only [write, List.map_cons, Sink.writeGroups, Option.or_assoc]

end Output

/-! ## The reporter and the report -/

namespace Reporter

variable {β σ : Type} [NetworkBuilder β] [Sink σ]

/-- How many errors were counted. -/
def errorCount (r : Reporter β σ) : Nat := r.progress.errors

/-- Whether no error was counted. -/
def ok (r : Reporter β σ) : Bool := r.errorCount == 0

/-- What is left when the reporter is done. -/
def reported (r : Reporter β σ) : Reported β σ := ⟨r.parsed, r.output.sink, r.output.error⟩

variable (names : NameTable) (builder : β) (text : String) (locations : Bool) (sink : σ)

theorem parser_run :
    (run names builder text locations sink).toParser = Parser.run names builder text :=
  (mirrors_run names builder text locations sink).parser

/-- At the end, each diagnostic was written once. -/
theorem output_run :
    (run names builder text locations sink).output =
      (start names builder text locations sink).output.writeAll
        (Event.diagnostics (run names builder text locations sink).events) := by
  obtain ⟨hparser, es, hevents, houtput⟩ := mirrors_run names builder text locations sink
  rw [← hparser] at hevents
  rw [houtput, hevents]
  rfl

/-- The first write that failed is kept. -/
theorem error_run :
    (run names builder text locations sink).output.error =
      ((start names builder text locations sink).output.failures
        (run names builder text locations sink).parsed.diagnostics).head? := by
  rw [output_run, Output.error_writeAll]
  exact Option.none_or

/-- **A reporter leaves what the report of a parse leaves.** -/
theorem reported_run :
    (run names builder text locations sink).reported =
      parseTo names builder text locations sink := by
  have hparsed : (run names builder text locations sink).parsed = parse names builder text := by
    rw [parser_run, Parser.parsed_run]
  have hdiagnostics : Event.diagnostics (run names builder text locations sink).events =
      (parse names builder text).diagnostics :=
    congrArg Parsed.diagnostics hparsed
  rw [reported, hparsed, output_run, hdiagnostics, Output.writeAll_eq]
  rfl

/-- The errors that were counted are the diagnostics that were made. -/
theorem errorCount_run :
    (run names builder text locations sink).errorCount =
      (run names builder text locations sink).parsed.errorCount := by
  have hrun := Parser.follows_run names builder text
  have htracks : (Parser.run names builder text).progress.Tracks
      (Parser.run names builder text).events := by
    rw [hrun.progress, hrun.events]
    exact Progress.tracks_steps (Progress.tracks_start builder) _ _
  rw [errorCount, parser_run]
  exact htracks.errors

theorem ok_run :
    (run names builder text locations sink).ok =
      (run names builder text locations sink).parsed.ok := by
  rw [ok, errorCount_run, Parsed.errorCount, Parsed.ok, Bool.eq_iff_iff, beq_iff_eq,
    List.isEmpty_iff_length_eq_zero]

end Reporter

/-! ## Asking for the write that failed -/

namespace Reported

variable {β σ : Type}

/-- Ask so many times for the write that failed. -/
def checks (r : Reported β σ) : Nat → List (Option WriteError) × Reported β σ
  | 0 => ([], r)
  | n + 1 =>
    let others := r.checkOutput.2.checks n
    (r.checkOutput.1 :: others.1, others.2)

/-- What failed is handed out once, and nothing else is touched. -/
theorem checks_succ (r : Reported β σ) (n : Nat) :
    r.checks (n + 1) =
      (r.outputError :: List.replicate n none, { r with outputError := none }) := by
  induction n generalizing r with
  | zero => rfl
  | succ n ih => rw [checks, ih]; rfl

end Reported

/-! ## Two runs -/

/-- What comes of a file, unless a write failed. -/
def verdictOf (ok : Bool) : Option WriteError → Except Failure Bool
  | some e => .error (.unwritable e)
  | none => .ok ok

namespace Reporter

variable {β σ τ : Type}

/-- Two runs that end alike in everything but the output. -/
structure Alike (r : Reporter β σ) (q : Reporter β τ) : Prop where
  verdict : r.ok = q.ok
  errorCount : r.errorCount = q.errorCount
  diagnostics : r.parsed.diagnostics = q.parsed.diagnostics
  calls : r.parsed.calls = q.parsed.calls
  /-- What was called, answered, checked and reported, in order. -/
  events : r.events = q.events
  builder : r.progress.builder = q.progress.builder
  names : r.scanner.names = q.scanner.names
  /-- The symbols that were taken. -/
  taken : r.taken = q.taken

theorem Alike.of_parser_eq {r : Reporter β σ} {q : Reporter β τ} (h : r.toParser = q.toParser) :
    r.Alike q := by
  obtain ⟨p, output⟩ := r
  obtain ⟨p', output'⟩ := q
  obtain rfl : p = p' := h
  exact ⟨rfl, rfl, rfl, rfl, rfl, rfl, rfl, rfl⟩

variable [NetworkBuilder β] [Sink σ] [Sink τ]

/-- A file is parsed as the reporter reads its text. -/
theorem parseFile_eq (names : NameTable) (builder : β) (file text : String) (locations : Bool)
    (sink : σ) :
    let r := run names builder text locations sink
    parseFile names builder file (.ok text) locations sink =
      ⟨verdictOf r.ok r.output.error, r.scanner.names, r.progress.builder, r.output.sink⟩ := by
  intro r
  have hreported : r.reported = parseTo names builder text locations sink :=
    reported_run names builder text locations sink
  have hok : r.ok = r.parsed.ok := ok_run names builder text locations sink
  simp only [parseFile, ← hreported]
  rw [hok]
  cases herror : r.output.error <;> simp [reported, herror, verdictOf, Parser.parsed]

/--
**A broken sink never changes a parse.** Whatever two sinks do, and whether places are shown or not,
two runs on one text end alike: in the verdict, the number of errors, the diagnostics, the calls and
their arguments, the builder and the names. A file is parsed with the same builder and the same
names; only its verdict makes way for the first write that failed, and that is handed out once.
-/
theorem run_of_sinks (names : NameTable) (builder : β) (file text : String)
    (locations locations' : Bool) (sink : σ) (sink' : τ) :
    let r := run names builder text locations sink
    let q := run names builder text locations' sink'
    let failures := (start names builder text locations sink).output.failures r.parsed.diagnostics
    let failures' :=
      (start names builder text locations' sink').output.failures q.parsed.diagnostics
    let f := parseFile names builder file (.ok text) locations sink
    let g := parseFile names builder file (.ok text) locations' sink'
    (r.reported = parseTo names builder text locations sink ∧
        q.reported = parseTo names builder text locations' sink') ∧
      r.Alike q ∧
      (f.builder = r.progress.builder ∧ g.builder = r.progress.builder) ∧
      (f.names = r.scanner.names ∧ g.names = r.scanner.names) ∧
      (f.verdict = verdictOf r.ok failures.head? ∧ g.verdict = verdictOf r.ok failures'.head?) ∧
      ∀ n, r.reported.checks (n + 1) =
        (failures.head? :: List.replicate n none, { r.reported with outputError := none }) := by
  intro r q failures failures' f g
  -- both runs mirror the one parser, which knows of no sink
  have hparser : r.toParser = q.toParser :=
    (parser_run names builder text locations sink).trans
      (parser_run names builder text locations' sink').symm
  have halike : r.Alike q := .of_parser_eq hparser
  have herror : r.output.error = failures.head? := error_run names builder text locations sink
  have herror' : q.output.error = failures'.head? := error_run names builder text locations' sink'
  have hf : f = ⟨verdictOf r.ok r.output.error, r.scanner.names, r.progress.builder, _⟩ :=
    parseFile_eq names builder file text locations sink
  have hg : g = ⟨verdictOf q.ok q.output.error, q.scanner.names, q.progress.builder, _⟩ :=
    parseFile_eq names builder file text locations' sink'
  refine ⟨⟨reported_run .., reported_run ..⟩, halike, ?_, ?_, ?_, ?_⟩
  · rw [hf, hg]
    exact ⟨rfl, halike.builder.symm⟩
  · rw [hf, hg]
    exact ⟨rfl, halike.names.symm⟩
  · rw [hf, hg, ← herror, ← herror', halike.verdict]
    exact ⟨rfl, rfl⟩
  · intro n
    rw [Reported.checks_succ, ← herror]
    rfl

/--
Of three lines the first cannot be written, the second is taken in two parts, and the third cannot
be written either. The first failure is the one that is handed out, and where nothing fails and
places are shown the text is found as bad.
-/
theorem run_of_sinks_recovering :
    let text := "MAIN_END"
    let builder : Scripted := ⟨[], [], [], true⟩
    let flaky := ScriptedSink.ofReplies [.error .noSpace, .ok 7, .ok 100, .error .sinkFull]
    let r := run .empty builder text false flaky
    let q := run .empty builder text true BoundedSink.unbounded
    let f := parseFile .empty builder "circuit.txt" (.ok text) false flaky
    let g := parseFile .empty builder "circuit.txt" (.ok text) true BoundedSink.unbounded
    let line := "ERROR (line 1, column 1): Expected a 'CONNECTIONS' statement here\n"
    (start .empty builder text false flaky).output.failures r.parsed.diagnostics =
        [.noSpace, .sinkFull] ∧
      r.output.sink.accepted = line.toUTF8.toList ∧
      r.Alike q ∧ r.errorCount = 3 ∧
      f.verdict = .error (.unwritable .noSpace) ∧ g.verdict = .ok false ∧
      (r.reported.checks 3).1 = [some .noSpace, none, none] := by
  intro text builder flaky r q f g line
  obtain ⟨⟨hreported, -⟩, halike, -, -, ⟨hverdict, hverdict'⟩, hchecks⟩ :=
    run_of_sinks .empty builder "circuit.txt" text false true flaky BoundedSink.unbounded
  have hdiagnostics : r.parsed.diagnostics =
      [⟨.syntactic .expectedDevices, .token ⟨.keyword .mainEnd, ⟨1, 1⟩⟩⟩,
        ⟨.syntactic .expectedConnections, .token ⟨.keyword .mainEnd, ⟨1, 1⟩⟩⟩,
        ⟨.syntactic .expectedMonitor, .token ⟨.keyword .mainEnd, ⟨1, 1⟩⟩⟩] := by
    rw [show r.parsed = parse .empty builder text from congrArg Reported.parsed hreported]
    decide +kernel
  have hfailures : (start .empty builder text false flaky).output.failures r.parsed.diagnostics =
      [.noSpace, .sinkFull] := by
    rw [hdiagnostics]
    decide +kernel
  have hwritten : r.output.sink.accepted = line.toUTF8.toList := by
    have houtput : r.output =
        (start .empty builder text false flaky).output.writeAll r.parsed.diagnostics :=
      output_run ..
    rw [houtput, hdiagnostics]
    decide +kernel
  have hcount : r.errorCount = 3 := by
    rw [errorCount_run]
    exact congrArg List.length hdiagnostics
  have hbad : r.ok = false := by
    rw [ok, hcount]
    rfl
  -- a sink that takes everything has no failure
  have hnone : (start .empty builder text true BoundedSink.unbounded).output.failures
      q.parsed.diagnostics = [] := by
    rw [← halike.diagnostics, hdiagnostics]
    decide +kernel
  rw [hfailures] at hverdict hchecks
  rw [hnone, hbad] at hverdict'
  exact ⟨hfailures, hwritten, halike, hcount, hverdict, hverdict', congrArg Prod.fst (hchecks 2)⟩

end Reporter

end LogicNet
