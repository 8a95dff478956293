import Mathlib
import LogicNet.CommandLine
import LogicNet.Proofs.Lines
import LogicNet.Proofs.Transcript

/-!
# The program agrees with the library

The program does not call `parseFile`. It reads the file, makes a circuit, parses and asks for the
write that failed, all by itself, and then goes on writing to the sink it was given: an account of
the circuit, or the number of errors. Both have to come to the same (`Command.run_check`).

Where nothing fails, what the program writes is the transcript and the closing lines behind it.
Where every write fails, it does not matter whether the file is good, since there is a closing line
at any rate.

Without places, a diagnostic is one line, because no header has a line feed in it: a header consists
of a fixed message and two numbers, and a number is written with digits only.

The arguments say which file is checked, and whether places are shown. There are arguments for every
file that has a name and for both ways of showing it (`Command.exists_ofArguments_iff`), so what is
said of the files that arguments ask for is said of all.
-/

namespace LogicNet

open Text (bytes bytes_append bytes_empty)

/-! ## Lines -/

namespace Text

theorem not_mem_toString (n : Nat) : '\n' ∉ (toString n).toList := by
  intro hmem
  have hdigit := Nat.isDigit_of_mem_toDigits (by omega) (by omega) (Nat.toList_repr ▸ hmem)
  exact absurd hdigit (by decide)

end Text

theorem ErrorKind.not_mem_message (kind : ErrorKind) : '\n' ∉ kind.message.toList := by
  cases kind with
  | syntactic e => cases e <;> decide
  | device e => cases e <;> decide
  | connection e => cases e <;> decide
  | monitor e => cases e <;> decide

/-- **A header is one line.** -/
theorem Diagnostic.not_mem_header (d : Diagnostic) : '\n' ∉ d.header.toList := by
  simp only [header, String.toList_append, List.mem_append, not_or]
  exact ⟨⟨⟨⟨⟨by decide, Text.not_mem_toString _⟩, by decide⟩, Text.not_mem_toString _⟩, by decide⟩,
    d.kind.not_mem_message⟩

/-- Without places, a transcript has as many lines as there are diagnostics. -/
theorem length_lines_transcript (lines : List (List Char)) (ds : List Diagnostic)
    (cs : List Char) :
    (Text.lines ((transcript lines false ds).toList ++ cs)).length =
      ds.length + (Text.lines cs).length := by
  induction ds with
  | nil => simp [transcript]
  | cons d ds ih =>
      have hrow : d.transcript lines false = d.header ++ "\n" := by simp [Diagnostic.transcript]
      have hsplit : (transcript lines false (d :: ds)).toList ++ cs =
          d.header.toList ++ '\n' :: ((transcript lines false ds).toList ++ cs) := by
        simp [transcript, hrow]
      rw [hsplit, Text.length_lines_append d.not_mem_header, ih, List.length_cons]
      omega

/-- The number of errors is told in one line. -/
theorem length_lines_closing (n : Nat) :
    (Text.lines ("Parse failed with " ++ toString n ++ " error(s)" ++ "\n").toList).length = 1 := by
  have hrow : '\n' ∉ ("Parse failed with " ++ toString n ++ " error(s)").toList := by
    simp only [String.toList_append, List.mem_append, not_or]
    exact ⟨⟨by decide, Text.not_mem_toString n⟩, by decide⟩
  rw [String.toList_append]
  exact Text.length_lines_append hrow []

/-- Without places, a report is one line for each diagnostic and one more for their number. -/
theorem length_lines_report (lines : List (List Char)) (ds : List Diagnostic) (n : Nat) :
    (Text.lines (transcript lines false ds ++
      ("Parse failed with " ++ toString n ++ " error(s)" ++ "\n")).toList).length =
      ds.length + 1 := by
  rw [String.toList_append, length_lines_transcript, length_lines_closing]

/-! ## What the arguments ask for -/

namespace Choices

/-- What comes of an argument: no file without a name is taken, and none is checked yet. -/
inductive Settles : Except Command Choices → Prop
  | ok {c : Choices} : c.file ≠ some "" → Settles (.ok c)
  | help : Settles (.error .help)
  | version : Settles (.error .version)
  | misuse : Settles (.error .misuse)

variable {c : Choices}

theorem settles_flag (h : c.file ≠ some "") (f : Flag) : Settles (c.flag f) := by
  cases f with
  | help => exact .help
  | version => exact .version
  | noLocations | verbose =>
      rw [flag]
      split
      · exact .misuse
      · exact .ok h

theorem settles_flag? (h : c.file ≠ some "") (f : Option Flag) : Settles (c.flag? f) := by
  cases f with
  | none => exact .misuse
  | some f => exact settles_flag h f

theorem settles_name (c : Choices) (file : String) : Settles (c.name file) := by
  rw [name]
  split
  · exact .misuse
  · next hfile =>
    rw [Bool.or_eq_true, String.isEmpty_iff, not_or] at hfile
    exact .ok fun heq => hfile.2 (Option.some.inj heq)

theorem Settles.bind {r : Except Command Choices} (h : Settles r)
    {f : Choices → Except Command Choices}
    (hf : ∀ c : Choices, c.file ≠ some "" → Settles (f c)) : Settles (r >>= f) := by
  cases h with
  | ok h => exact hf _ h
  | help => exact .help
  | version => exact .version
  | misuse => exact .misuse

theorem settles_foldlM {α : Type} {take : Choices → α → Except Command Choices}
    (htake : ∀ c : Choices, c.file ≠ some "" → ∀ x, Settles (take c x)) (h : c.file ≠ some "")
    (xs : List α) : Settles (xs.foldlM take c) := by
  induction xs generalizing c with
  | nil => exact .ok h
  | cons x xs ih =>
      rw [List.foldlM_cons]
      exact (htake c h x).bind fun _ h => ih h

theorem settles_argument (h : c.file ≠ some "") (arg : String) : Settles (c.argument arg) := by
  rw [argument]
  split
  · exact settles_flag? h _
  · exact settles_foldlM (fun _ h _ => settles_flag? h _) h _
  · exact settles_name c arg

theorem settles_arguments (h : c.file ≠ some "") (args : List String) :
    Settles (c.arguments args) := by
  induction args generalizing c with
  | nil => exact .ok h
  | cons arg args ih =>
      rw [arguments]
      split
      · exact settles_foldlM (fun c _ => settles_name c) h args
      · exact (settles_argument h arg).bind fun _ h => ih h

end Choices

namespace Command

/-- Two dashes go before any file that has a name, with the flag before them or without it. -/
theorem ofArguments_file {file : String} (h : file ≠ "") :
    ofArguments ["--", file] = .check file true ∧
      ofArguments ["--no-locations", "--", file] = .check file false := by
  have hnamed : ∀ c : Choices, c.file = none →
      c.arguments ["--", file] = .ok { c with file := some file } := by
    intro c hc
    have hempty : file.isEmpty = false := by rwa [Bool.eq_false_iff, Ne, String.isEmpty_iff]
    rw [Choices.arguments, if_pos rfl, List.foldlM_cons, Choices.name, hc, hempty]
    rfl
  have hflag : Choices.start.argument "--no-locations" = .ok ⟨none, true, false⟩ := by
    decide +kernel
  have hflagged : Choices.start.arguments ["--no-locations", "--", file] =
      Choices.arguments ⟨none, true, false⟩ ["--", file] := by
    rw [Choices.arguments, if_neg (by decide), hflag]
    rfl
  constructor
  · rw [ofArguments, hnamed .start rfl]
    rfl
  · rw [ofArguments, hflagged, hnamed _ rfl]
    rfl

/-- **Every file that has a name can be checked**, with places or without, and no other. -/
theorem exists_ofArguments_iff {file : String} {locations : Bool} :
    (∃ args, ofArguments args = .check file locations) ↔ file ≠ "" := by
  constructor
  · rintro ⟨args, hargs⟩ rfl
    have hsettled := Choices.settles_arguments (c := .start) (by simp [Choices.start]) args
    rw [ofArguments] at hargs
    generalize Choices.start.arguments args = settled at hargs hsettled
    cases hsettled with
    | help | version | misuse => cases hargs
    | @ok c hfile =>
        simp only at hargs
        split at hargs
        · cases hargs
        · next hnamed =>
          cases hargs
          exact hfile hnamed
  · intro h
    obtain ⟨hshown, hhidden⟩ := ofArguments_file h
    cases locations with
    | true => exact ⟨_, hshown⟩
    | false => exact ⟨_, hhidden⟩

end Command
/-! ## Writing the report -/

namespace Sink

variable {σ : Type} {taken : σ → List UInt8} {room : σ → Option Nat} {s : σ} {bs : List UInt8}
  {result : Option WriteError × σ}

/-- A sink without a bound takes everything. -/
theorem Filled.of_unbounded (h : Filled taken room s bs result) (hroom : room s = none) :
    result.1 = none ∧ taken result.2 = taken s ++ bs ∧ room result.2 = none := by
  refine ⟨?_, ?_, ?_⟩
  · rw [← Option.not_isSome_iff_eq_none, h.failed, hroom]
    simp
  · rw [h.accepted, hroom]
    rfl
  · rw [h.left, hroom]
    rfl

/-- A sink without room takes nothing, and a write fails if there is one. -/
theorem Filled.of_full (h : Filled taken room s bs result) (hroom : room s = some 0) :
    (bs ≠ [] → ∃ e, result.1 = some e) ∧ taken result.2 = taken s ∧ room result.2 = some 0 := by
  refine ⟨?_, ?_, ?_⟩
  · intro hbs
    have hfailed : result.1.isSome = true :=
      h.failed.mpr ⟨0, hroom, List.length_pos_iff.mpr hbs⟩
    exact Option.isSome_iff_exists.mp hfailed
  · rw [h.accepted, hroom]
    exact List.append_nil _
  · rw [h.left, hroom]
    simp

end Sink

section

variable {β σ : Type} [NetworkBuilder β] [Sink σ] {taken : σ → List UInt8}
  {room : σ → Option Nat}

theorem Sink.Fills.filled_writeGroups (h : Fills taken room) (s : σ) (groups : List (List String)) :
    Filled taken room s (groups.flatMap fun lines => lines.flatMap fun line => bytes (line ++ "\n"))
      (writeGroups s groups) := by
  induction groups generalizing s with
  | nil => exact .nil s
  | cons lines groups ih => exact (h.filled_writeLines s lines).append (ih _)

theorem flatMap_rows (lines : List (List Char)) (locations : Bool) (ds : List Diagnostic) :
    ((ds.map (Diagnostic.rows lines locations)).flatMap fun rows =>
        rows.flatMap fun line => bytes (line ++ "\n")) = bytes (transcript lines locations ds) := by
  induction ds with
  | nil => exact bytes_empty.symm
  | cons d ds ih => rw [List.map_cons, List.flatMap_cons, ih, Diagnostic.flatMap_rows, transcript,
      bytes_append]

/-- A report is the transcript, as far as the sink takes it. -/
theorem filled_parseTo (h : Sink.Fills taken room) (names : NameTable) (builder : β) (text : String)
    (locations : Bool) (sink : σ) :
    let r := parseTo names builder text locations sink
    Sink.Filled taken room sink
      (bytes (transcript (Text.lines text.toList) locations
        (parse names builder text).diagnostics)) (r.outputError, r.sink) := by
  intro r
  rw [← flatMap_rows]
  exact h.filled_writeGroups sink _

end

/-! ## The program -/

section

variable {σ τ : Type} [Sink σ] [Sink τ] {taken : σ → List UInt8} {room : σ → Option Nat}
  {taken' : τ → List UInt8} {room' : τ → Option Nat}

/-- What the program makes of a text: the report first, and then the closing lines. -/
theorem checkFile_eq (file : String) {text : String} {locations : Bool} {sink : σ}
    {r : Reported Circuit σ}
    (hr : parseTo (Circuit.start .empty).1 (Circuit.start .empty).2 text locations sink = r) :
    checkFile file (.ok text) locations sink =
      let closed := Sink.writeLines r.sink (closingLines r.parsed)
      match r.outputError, closed.1 with
      | some e, _ => (Failure.unwritable e).exit r.sink
      | none, some e => (Failure.unwritable e).exit closed.2
      | none, none => ⟨if r.parsed.ok then 0 else 1, closed.2, none⟩ := by
  simp only [checkFile, hr]
  cases r.outputError with
  | some e => rfl
  | none =>
      generalize Sink.writeLines r.sink (closingLines r.parsed) = written
      obtain ⟨_ | e, s⟩ := written <;> rfl

/-- Where nothing fails, the transcript is written and the closing lines are. -/
theorem checkFile_of_unbounded (h : Sink.Fills taken room) (file text : String) (locations : Bool)
    {sink : σ} (hroom : room sink = none) :
    let start := Circuit.start .empty
    let r := parse start.1 start.2 text
    let exit := checkFile file (.ok text) locations sink
    exit.code = (if r.ok then 0 else 1) ∧ exit.error = none ∧
      taken exit.sink = taken sink ++
        bytes (transcript (Text.lines text.toList) locations r.diagnostics) ++
        (closingLines r).flatMap fun line => bytes (line ++ "\n") := by
  intro start r exit
  generalize hreported : parseTo start.1 start.2 text locations sink = reported
  have hparsed : reported.parsed = r := by rw [← hreported]; rfl
  have hfilled := filled_parseTo h start.1 start.2 text locations sink
  rw [hreported] at hfilled
  obtain ⟨herror, htaken, hleft⟩ := hfilled.of_unbounded hroom
  obtain ⟨hclosed, hclosing, -⟩ :=
    (h.filled_writeLines reported.sink (closingLines reported.parsed)).of_unbounded hleft
  have hexit := checkFile_eq file hreported
  simp only [show reported.outputError = none from herror, hclosed] at hexit
  rw [show exit = _ from hexit]
  rw [hparsed] at hclosing ⊢
  exact ⟨rfl, rfl, by rw [hclosing, htaken]⟩

/-- Where nothing is wrong, nothing is reported, and the program gives an account of the circuit. -/
theorem checkFile_of_ok (h : Sink.Fills taken room) (file : String) {text : String}
    (locations : Bool) {sink : σ} (hroom : room sink = none)
    (hok : (parse (Circuit.start .empty).1 (Circuit.start .empty).2 text).ok = true) :
    let r := parse (Circuit.start .empty).1 (Circuit.start .empty).2 text
    let exit := checkFile file (.ok text) locations sink
    exit.code = 0 ∧ exit.error = none ∧
      taken exit.sink = taken sink ++
        (bytes (toString r.builder.devices.length ++ " devices, " ++
            toString r.builder.connectionCount ++ " connections, " ++
            toString r.builder.monitors.length ++ " monitors" ++ "\n") ++
          r.builder.monitors.flatMap fun s => bytes ("  " ++ s.text r.names ++ "\n")) := by
  intro r exit
  obtain ⟨hcode, herror, htaken⟩ := checkFile_of_unbounded h file text locations hroom
  rw [if_pos hok] at hcode
  refine ⟨hcode, herror, ?_⟩
  have hnil : r.diagnostics = [] := List.isEmpty_iff.mp hok
  rw [htaken, hnil, transcript, bytes_empty, List.append_nil, closingLines, if_pos hok,
    List.flatMap_cons, List.flatMap_map]

/-- Where something is wrong, the number of diagnostics stands behind the transcript. -/
theorem checkFile_of_not_ok (h : Sink.Fills taken room) (file : String) {text : String}
    (locations : Bool) {sink : σ} (hroom : room sink = none)
    (hok : (parse (Circuit.start .empty).1 (Circuit.start .empty).2 text).ok ≠ true) :
    let r := parse (Circuit.start .empty).1 (Circuit.start .empty).2 text
    let exit := checkFile file (.ok text) locations sink
    exit.code = 1 ∧ exit.error = none ∧
      taken exit.sink = taken sink ++
        bytes (transcript (Text.lines text.toList) locations r.diagnostics ++
          ("Parse failed with " ++ toString r.diagnostics.length ++ " error(s)" ++ "\n")) := by
  intro r exit
  obtain ⟨hcode, herror, htaken⟩ := checkFile_of_unbounded h file text locations hroom
  rw [if_neg hok] at hcode
  refine ⟨hcode, herror, ?_⟩
  have hclosing : closingLines r =
      ["Parse failed with " ++ toString r.diagnostics.length ++ " error(s)"] := if_neg hok
  rw [htaken, hclosing, List.flatMap_cons, List.flatMap_nil, List.append_nil,
    List.append_assoc, ← bytes_append]

theorem flatMap_closingLines_ne_nil (r : Parsed Circuit) :
    ((closingLines r).flatMap fun line => bytes (line ++ "\n")) ≠ [] := by
  have hline : ∀ line, bytes (line ++ "\n") ≠ [] := by
    intro line
    rw [bytes_append]
    exact List.append_ne_nil_of_right_ne_nil _ (by decide +kernel)
  rw [closingLines]
  split <;> simp [hline]

/-- Where every write fails there is no verdict, since there is a closing line at any rate. -/
theorem checkFile_of_full (h : Sink.Fills taken room) (file text : String) (locations : Bool)
    {sink : σ} (hroom : room sink = some 0) :
    let exit := checkFile file (.ok text) locations sink
    taken exit.sink = taken sink ∧ ∃ e, exit = (Failure.unwritable e).exit exit.sink := by
  intro exit
  let start := Circuit.start .empty
  generalize hreported : parseTo start.1 start.2 text locations sink = reported
  have hfilled := filled_parseTo h start.1 start.2 text locations sink
  rw [hreported] at hfilled
  obtain ⟨-, htaken, hleft⟩ := hfilled.of_full hroom
  obtain ⟨hfails, hclosing, -⟩ :=
    (h.filled_writeLines reported.sink (closingLines reported.parsed)).of_full hleft
  have hexit := checkFile_eq file hreported
  cases herror : reported.outputError with
  | some e =>
      simp only [herror] at hexit
      rw [show exit = _ from hexit]
      exact ⟨htaken, e, rfl⟩
  | none =>
      obtain ⟨e, he⟩ := hfails (flatMap_closingLines_ne_nil reported.parsed)
      simp only [herror, he] at hexit
      rw [show exit = _ from hexit]
      exact ⟨hclosing.trans htaken, e, rfl⟩

/-- What the library makes of a text where nothing fails. -/
theorem parseFile_of_unbounded {β : Type} [NetworkBuilder β] (h : Sink.Fills taken room)
    (names : NameTable) (builder : β) (file text : String) (locations : Bool) (sink : σ)
    (hroom : room sink = none) :
    let r := parse names builder text
    let f := parseFile names builder file (.ok text) locations sink
    f.verdict = .ok r.ok ∧ f.builder = r.builder ∧ f.names = r.names ∧
      taken f.sink = taken sink ++
        bytes (transcript (Text.lines text.toList) locations r.diagnostics) := by
  intro r f
  obtain ⟨herror, htaken, -⟩ :=
    (filled_parseTo h names builder text locations sink).of_unbounded hroom
  have herror : (parseTo names builder text locations sink).outputError = none := herror
  have hverdict : f.verdict = .ok r.ok := by
    simp only [f, parseFile, herror]
    rfl
  exact ⟨hverdict, rfl, rfl, htaken⟩

/--
**The program agrees with the library**, whatever the file says and whether places are shown or not.

Where nothing fails, the program ends with 0 if and only if the library finds nothing wrong, and
what it has written then is an account of the circuit that the library has built, and a line for
each signal that is watched. Otherwise it ends with 1, and it has written what the library writes
and the number of diagnostics behind it; without places, that is one line for each diagnostic and
one more.

Where the file cannot be read, or where every write fails, it ends with 2, and has written nothing.
-/
theorem Command.run_check (h : Sink.Fills taken room) (h' : Sink.Fills taken' room')
    {args : List String} {file : String} {locations : Bool}
    (hargs : Command.ofArguments args = .check file locations)
    (read : String → Except ReadError String) (stdout : σ) (out : τ) (hout : room' out = none) :
    let start := Circuit.start .empty
    let lib := parseFile start.1 start.2 file (read file) locations out
    let exit := (Command.ofArguments args).run read stdout
    (∀ text, read file = .ok text → room stdout = none →
      let n := (parse start.1 start.2 text).diagnostics.length
      (Reporter.run start.1 start.2 text locations out).errorCount = n ∧
      (exit.code = 0 ↔ lib.verdict = .ok true) ∧ exit.error = none ∧
      (exit.code = 0 → taken exit.sink = taken stdout ++
        (bytes (toString lib.builder.devices.length ++ " devices, " ++
            toString lib.builder.connectionCount ++ " connections, " ++
            toString lib.builder.monitors.length ++ " monitors" ++ "\n") ++
          lib.builder.monitors.flatMap fun s => bytes ("  " ++ s.text lib.names ++ "\n"))) ∧
      (exit.code ≠ 0 → exit.code = 1 ∧ ∃ report : String,
        taken' lib.sink = taken' out ++ bytes report ∧
        let shown := report ++ ("Parse failed with " ++ toString n ++ " error(s)" ++ "\n")
        taken exit.sink = taken stdout ++ bytes shown ∧
          (locations = false → (Text.lines shown.toList).length = n + 1))) ∧
    (∀ e, read file = .error e → exit.code = 2 ∧ exit.sink = stdout ∧
      exit.error = some ("Error: " ++ (Failure.unreadable file e).message)) ∧
    ∀ text, read file = .ok text → room stdout = some 0 →
      exit.code = 2 ∧ taken exit.sink = taken stdout ∧
        ∃ e, exit.error = some ("Error: " ++ (Failure.unwritable e).message) := by
  intro start lib exit
  have hexit : exit = checkFile file (read file) locations stdout := by
    simp only [exit, hargs, run]
  refine ⟨?_, ?_, ?_⟩
  · intro text hread hroom n
    have hlib : lib = parseFile start.1 start.2 file (.ok text) locations out := by
      simp only [lib, hread]
    obtain ⟨hverdict, hbuilder, hnames, hreport⟩ :=
      parseFile_of_unbounded h' start.1 start.2 file text locations out hout
    rw [← hlib] at hverdict hbuilder hnames hreport
    rw [hread] at hexit
    have hcount : (Reporter.run start.1 start.2 text locations out).errorCount = n := by
      rw [Reporter.errorCount_run, Reporter.parser_run, Parser.parsed_run]
      rfl
    rw [hexit, hbuilder, hnames, hverdict]
    by_cases hok : (parse start.1 start.2 text).ok = true
    · obtain ⟨hcode, herror, htaken⟩ := checkFile_of_ok h file locations hroom hok
      exact ⟨hcount, iff_of_true hcode (by rw [hok]), herror, fun _ => htaken,
        fun hne => absurd hcode hne⟩
    · obtain ⟨hcode, herror, htaken⟩ := checkFile_of_not_ok h file locations hroom hok
      have hne := ne_of_eq_of_ne hcode Nat.one_ne_zero
      refine ⟨hcount, iff_of_false hne (by simp [hok]), herror, fun hzero => absurd hzero hne,
        fun _ => ⟨hcode, _, hreport, htaken, ?_⟩⟩
      rintro rfl
      exact length_lines_report _ _ _
  · intro e hread
    rw [hexit, hread]
    exact ⟨rfl, rfl, rfl⟩
  · intro text hread hroom
    rw [hexit, hread]
    obtain ⟨htaken, e, he⟩ := checkFile_of_full h file text locations hroom
    rw [he] at htaken ⊢
    exact ⟨rfl, htaken, e, rfl⟩

set_option maxRecDepth 4000 in
/-- Three mistakes, and no places shown: that is four lines. -/
theorem Command.run_check_three :
    let text := "DEVICES SWITCH, 1 = S END\nMAIN_END\n"
    let exit := (Command.ofArguments ["--no-locations", "circuit.txt"]).run (fun _ => .ok text)
      BoundedSink.unbounded
    exit.code = 1 ∧ ∃ shown : String, exit.sink.accepted.toList = bytes shown ∧
      (Text.lines shown.toList).length = 4 := by
  intro text exit
  have hargs : Command.ofArguments ["--no-locations", "circuit.txt"] =
      .check "circuit.txt" false := by decide +kernel
  let start := Circuit.start .empty
  have hdiagnostics : (parse start.1 start.2 text).diagnostics =
      [⟨.syntactic .noSemicolon, .token ⟨.keyword .endBlock, ⟨1, 23⟩⟩⟩,
        ⟨.syntactic .expectedConnections, .token ⟨.keyword .mainEnd, ⟨2, 1⟩⟩⟩,
        ⟨.syntactic .expectedMonitor, .token ⟨.keyword .mainEnd, ⟨2, 1⟩⟩⟩] := by
    unfold start text
    cbv
  obtain ⟨hworks, -, -⟩ := Command.run_check BoundedSink.fills BoundedSink.fills hargs
    (fun _ => .ok text) BoundedSink.unbounded BoundedSink.unbounded rfl
  obtain ⟨-, hcode, -, -, hfailed⟩ := hworks text rfl rfl
  obtain ⟨hverdict, -⟩ := parseFile_of_unbounded BoundedSink.fills start.1 start.2 "circuit.txt"
    text false BoundedSink.unbounded rfl
  have hne : exit.code ≠ 0 := by
    intro hzero
    have hok := hcode.mp hzero
    rw [hverdict, Parsed.ok, hdiagnostics] at hok
    cases hok
  obtain ⟨hone, report, -, htaken, hlines⟩ := hfailed hne
  refine ⟨hone, _, htaken.trans (List.nil_append _), ?_⟩
  rw [hlines rfl, hdiagnostics]
  rfl

end

end LogicNet
