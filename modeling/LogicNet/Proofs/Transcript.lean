import Mathlib
import LogicNet.Network.Scripted
import LogicNet.Proofs.Sinks
import LogicNet.Sink.Bounded

/-!
# The transcript of a parse, and where a full sink cuts it

What a parse has to say is one text, the transcript of its diagnostics. The reporter never makes
that text. It writes line by line, gives up a diagnostic at the first line that does not go through,
and tries the next one all the same. So a sink that becomes full might well be left with pieces from
all over the transcript.

It is not. A sink that fills up (`Sink.Fills`) has no room left once a write fails, so all that is
tried after that is lost as well, and what the sink took is a prefix of the transcript, cut where
the room ended: in a header, in a line of the file, in front of a caret or between two diagnostics
(`Reporter.run_transcript`).
-/

namespace LogicNet

/-! ## The bytes of a text -/

namespace Text

/-- The bytes of a text. -/
def bytes (text : String) : List UInt8 := text.toUTF8.toList

theorem toList_loop (bs : ByteArray) (i : Nat) (r : List UInt8) :
    ByteArray.toList.loop bs i r = r.reverse ++ bs.data.toList.drop i := by
  fun_induction ByteArray.toList.loop bs i r with
  | case1 i r hi ih =>
      have hlength : i < bs.data.toList.length := hi
      have hget : bs.get! i = bs.data.toList[i] := getElem!_pos bs.data i hi
      rw [ih, List.reverse_cons, List.append_assoc, List.drop_eq_getElem_cons hlength, hget]
      rfl
  | case2 i r hi =>
      have hlength : bs.data.toList.length ≤ i := Nat.le_of_not_lt hi
      rw [List.drop_eq_nil_of_le hlength, List.append_nil]

theorem bytes_eq (text : String) : bytes text = text.toByteArray.data.toList :=
  (toList_loop _ 0 []).trans (List.nil_append _)

theorem bytes_empty : bytes "" = [] := bytes_eq ""

theorem bytes_append (s t : String) : bytes (s ++ t) = bytes s ++ bytes t := by
  rw [bytes_eq, bytes_eq, bytes_eq, String.toByteArray_append, ByteArray.data_append,
    Array.toList_append]

end Text

open Text (bytes bytes_append bytes_empty)

/-! ## The transcript -/

/-- The text of a diagnostic: its header, and its place where places are shown and it has one. -/
def Diagnostic.transcript (lines : List (List Char)) (locations : Bool) (d : Diagnostic) : String :=
  d.header ++ "\n" ++
    if locations = true ∧ d.kind ≠ .syntactic .incompleteNetwork then
      let e := Excerpt.ofSymbol lines d.anchor
      String.ofList e.line ++ "\n" ++ (String.ofList (e.padding ++ ['^']) ++ "\n")
    else ""

/-- The texts of diagnostics, one behind the other. -/
def transcript (lines : List (List Char)) (locations : Bool) : List Diagnostic → String
  | [] => ""
  | d :: ds => d.transcript lines locations ++ transcript lines locations ds

theorem ErrorKind.hasCaret_iff (kind : ErrorKind) :
    kind.hasCaret = true ↔ kind ≠ .syntactic .incompleteNetwork := by
  cases kind with
  | syntactic e => cases e <;> decide
  | device e | connection e | monitor e => simp [hasCaret]

/-- What is written line by line is the text of the diagnostic. -/
theorem Diagnostic.flatMap_rows (lines : List (List Char)) (locations : Bool) (d : Diagnostic) :
    (d.rows lines locations).flatMap (fun line => bytes (line ++ "\n")) =
      bytes (d.transcript lines locations) := by
  rw [rows, transcript, List.flatMap_cons, bytes_append (d.header ++ "\n")]
  by_cases h : locations = true ∧ d.kind ≠ .syntactic .incompleteNetwork
  · rw [if_pos h, if_pos (by simp [h.1, d.kind.hasCaret_iff.mpr h.2])]
    simp only [Excerpt.rows, List.flatMap_cons, List.flatMap_nil, List.append_nil, bytes_append,
      List.append_assoc]
  · have hcaret : ¬ (locations && d.kind.hasCaret) = true := by
      rwa [Bool.and_eq_true, d.kind.hasCaret_iff]
    rw [if_neg h, if_neg hcaret, bytes_empty, List.flatMap_nil]

/-! ## Sinks that fill up -/

namespace Sink

variable {σ : Type} {taken : σ → List UInt8} {room : σ → Option Nat} {s s' : σ}
  {as bs : List UInt8} {result result' : Option WriteError × σ}

/-- As much of some bytes as there is room for. -/
def cut (room : Option Nat) (bs : List UInt8) : List UInt8 := room.elim bs bs.take

/-- As much of some bytes was taken as there was room for, and a write failed if there was more. -/
structure Filled (taken : σ → List UInt8) (room : σ → Option Nat) (s : σ) (bs : List UInt8)
    (result : Option WriteError × σ) : Prop where
  accepted : taken result.2 = taken s ++ cut (room s) bs
  left : room result.2 = (room s).map (· - bs.length)
  failed : result.1.isSome = true ↔ ∃ k ∈ room s, k < bs.length

theorem Filled.nil (s : σ) : Filled taken room s [] (none, s) where
  accepted := by cases room s <;> simp [cut]
  left := by cases room s <;> simp
  failed := by simp

/-- What is tried behind what was tried goes where there is room. -/
theorem Filled.append (h : Filled taken room s as result)
    (h' : Filled taken room result.2 bs result') :
    Filled taken room s (as ++ bs) (result.1.or result'.1, result'.2) where
  accepted := by
    rw [h'.accepted, h.accepted, h.left]
    cases room s with
    | none => simp [cut]
    | some k => simp [cut, List.take_append]
  left := by
    rw [h'.left, h.left]
    cases room s with
    | none => rfl
    | some k => simp [Nat.sub_sub]
  failed := by
    have hfailed := h.failed
    have hfailed' := h'.failed
    rw [h.left] at hfailed'
    rw [Option.isSome_or, Bool.or_eq_true, hfailed, hfailed']
    cases room s with
    | none => simp
    | some k =>
        simp only [Option.map_some, Option.mem_some_iff, exists_eq_left', List.length_append]
        omega

/-- **A write that failed left no room**, so nothing is lost by trying nothing more. -/
theorem Filled.stop {e : WriteError} (h : Filled taken room s as (some e, s')) :
    Filled taken room s (as ++ bs) (some e, s') := by
  -- the room ends within `as`, so it does not matter what stands behind
  obtain ⟨k, hk, hlt⟩ := h.failed.mp rfl
  have hroom : room s = some k := hk
  refine ⟨?_, ?_, ?_⟩
  · rw [h.accepted, hroom]
    simp only [cut, Option.elim_some, List.take_append_of_le_length hlt.le]
  · rw [h.left, hroom, List.length_append, Option.map_some, Option.map_some]
    congr 1
    omega
  · rw [hroom, List.length_append]
    simp only [Option.isSome_some, Option.mem_some_iff, exists_eq_left', true_iff]
    omega

variable [Sink σ]

/--
A sink with room for so many bytes, or for any number of them. While there is room it takes a part
of each write, perhaps a short one, and once there is none each write fails.
-/
structure Fills (taken : σ → List UInt8) (room : σ → Option Nat) : Prop where
  takes : ∀ s bs, bs ≠ [] → room s ≠ some 0 →
    ∃ n, (write s bs).1 = .ok (n + 1) ∧ n + 1 ≤ bs.length ∧ (∀ k ∈ room s, n + 1 ≤ k) ∧
      taken (write s bs).2 = taken s ++ bs.take (n + 1) ∧
      room (write s bs).2 = (room s).map (· - (n + 1))
  refuses : ∀ s bs, bs ≠ [] → room s = some 0 →
    (∃ e, (write s bs).1 = .error e) ∧ taken (write s bs).2 = taken s ∧
      room (write s bs).2 = room s

namespace Fills

theorem filled_of_ok (h : Fills taken room) (hbs : bs ≠ []) {n : Nat}
    (hwrite : write s bs = (.ok n, s')) :
    n ≠ 0 ∧ Filled taken room s (bs.take n) (none, s') := by
  by_cases hroom : room s = some 0
  · obtain ⟨⟨e, he⟩, -⟩ := h.refuses s bs hbs hroom
    rw [hwrite] at he
    cases he
  · obtain ⟨m, hm, hle, hfits, htaken, hleft⟩ := h.takes s bs hbs hroom
    rw [hwrite] at hm htaken hleft
    obtain rfl : n = m + 1 := Except.ok.inj hm
    refine ⟨Nat.succ_ne_zero m, ?_, ?_, ?_⟩
    · rw [htaken]
      cases hk : room s with
      | none => rfl
      | some k => simp [cut, List.take_take, hfits k hk]
    · rw [hleft, List.length_take_of_le hle]
    · rw [List.length_take_of_le hle]
      simp only [Option.isSome_none, Bool.false_eq_true, false_iff, not_exists, not_and, not_lt]
      exact hfits

theorem filled_of_error (h : Fills taken room) (hbs : bs ≠ []) {e : WriteError}
    (hwrite : write s bs = (.error e, s')) : Filled taken room s bs (some e, s') := by
  by_cases hroom : room s = some 0
  · obtain ⟨-, htaken, hleft⟩ := h.refuses s bs hbs hroom
    rw [hwrite] at htaken hleft
    have hlength := List.length_pos_iff.mpr hbs
    refine ⟨?_, ?_, ?_⟩
    · simp [htaken, hroom, cut]
    · simp [hleft, hroom]
    · simp [hroom, hlength]
  · obtain ⟨m, hm, -⟩ := h.takes s bs hbs hroom
    rw [hwrite] at hm
    cases hm

/-- Offering bytes again and again fills the sink. -/
theorem filled_writeAll (h : Fills taken room) (s : σ) (bs : List UInt8) :
    Filled taken room s bs (writeAll s bs) := by
  fun_induction Sink.writeAll s bs with
  | case1 s => exact .nil s
  | case2 s b bs e s' hwrite => exact h.filled_of_error (List.cons_ne_nil b bs) hwrite
  | case3 s b bs s' hwrite => exact absurd rfl (h.filled_of_ok (List.cons_ne_nil b bs) hwrite).1
  | case4 s b bs n s' hwrite ih =>
      obtain ⟨-, hfirst⟩ := h.filled_of_ok (List.cons_ne_nil b bs) hwrite
      have hsplit : b :: bs = (b :: bs).take (n + 1) ++ bs.drop n :=
        (List.take_append_drop (n + 1) (b :: bs)).symm
      rw [hsplit]
      exact hfirst.append ih

theorem filled_writeLines (h : Fills taken room) (s : σ) (lines : List String) :
    Filled taken room s (lines.flatMap fun line => bytes (line ++ "\n")) (writeLines s lines) := by
  induction lines generalizing s with
  | nil => exact .nil s
  | cons line lines ih =>
      have hline := h.filled_writeAll s (bytes (line ++ "\n"))
      rw [writeLines, List.flatMap_cons]
      split
      · next e s' hwrite =>
        -- the lines that are given up would have found no room
        rw [show writeAll s (bytes (line ++ "\n")) = (some e, s') from hwrite] at hline
        exact hline.stop
      · next s' hwrite =>
        rw [show writeAll s (bytes (line ++ "\n")) = (none, s') from hwrite] at hline
        exact hline.append (ih s')

end Fills

end Sink

/-- What a bounded sink has room for, it takes. -/
theorem BoundedSink.fills : Sink.Fills (fun s => s.accepted.toList) BoundedSink.room where
  takes := by
    intro s bs hbs hroom
    obtain ⟨b, bs, rfl⟩ := List.exists_cons_of_ne_nil hbs
    obtain ⟨accepted, room, refusal⟩ := s
    match room with
    | none => exact ⟨bs.length, rfl, Nat.le_refl _, by simp, by simp [Sink.write], rfl⟩
    | some 0 => exact absurd rfl hroom
    | some (k + 1) =>
        refine ⟨min k bs.length, ?_, ?_, ?_, ?_, ?_⟩ <;> simp [Sink.write]
  refuses := by
    intro s bs hbs hroom
    obtain ⟨accepted, room, refusal⟩ := s
    obtain rfl : room = some 0 := hroom
    exact ⟨⟨refusal, rfl⟩, rfl, rfl⟩

/-! ## A run -/

theorem Output.filled_writeAll {σ : Type} [Sink σ] {taken : σ → List UInt8}
    {room : σ → Option Nat} (h : Sink.Fills taken room) (o : Output σ) (ds : List Diagnostic) :
    Sink.Filled taken room o.sink (bytes (transcript o.lines o.locations ds))
      ((o.failures ds).head?, (o.writeAll ds).sink) := by
  induction ds generalizing o with
  | nil =>
      rw [transcript, bytes_empty]
      exact .nil o.sink
  | cons d ds ih =>
      have hfirst := h.filled_writeLines o.sink (d.rows o.lines o.locations)
      rw [Diagnostic.flatMap_rows] at hfirst
      have hall := hfirst.append (ih (o.write d))
      rw [transcript, bytes_append, failures, List.head?_append, Option.head?_toList]
      exact hall

namespace Reporter

variable {β σ : Type} [NetworkBuilder β] [Sink σ]

/--
**What a sink takes is a prefix of the transcript.** The verdict is that there are no diagnostics,
and the number of errors is their number. A sink that never fails is given the whole transcript. A
sink with room for so many bytes is given as many of its first bytes, and a write fails if and only
if there were more.
-/
theorem run_transcript (names : NameTable) (builder : β) (text : String) (locations : Bool)
    {taken : σ → List UInt8} {room : σ → Option Nat} (h : Sink.Fills taken room) (sink : σ) :
    let r := run names builder text locations sink
    let full := bytes (transcript (Text.lines text.toList) locations r.parsed.diagnostics)
    r.reported = parseTo names builder text locations sink ∧
      (r.ok = true ↔ r.parsed.diagnostics = []) ∧
      r.errorCount = r.parsed.diagnostics.length ∧
      (room sink = none → taken r.output.sink = taken sink ++ full ∧ r.output.error = none) ∧
      ∀ size, room sink = some size →
        taken r.output.sink = taken sink ++ full.take (min size full.length) ∧
          (r.output.error.isSome = true ↔ size < full.length) := by
  intro r full
  have hfilled := Output.filled_writeAll h (start names builder text locations sink).output
    r.parsed.diagnostics
  have herror : r.output.error = _ := error_run names builder text locations sink
  have houtput : r.output = _ := output_run names builder text locations sink
  have hfull : Sink.Filled taken room sink full (r.output.error, r.output.sink) := by
    rw [herror, houtput]
    exact hfilled
  have hcount : r.errorCount = r.parsed.diagnostics.length :=
    errorCount_run names builder text locations sink
  have hok : r.ok = r.parsed.ok := ok_run names builder text locations sink
  refine ⟨reported_run .., ?_, hcount, ?_, ?_⟩
  · rw [hok, Parsed.ok, List.isEmpty_iff]
  · intro hroom
    refine ⟨by rw [hfull.accepted, hroom]; rfl, ?_⟩
    rw [← Option.not_isSome_iff_eq_none, hfull.failed, hroom]
    simp
  · intro size hroom
    refine ⟨?_, ?_⟩
    · rw [hfull.accepted, hroom, ← List.take_eq_take_min]
      rfl
    · rw [hfull.failed, hroom]
      simp

/-- A sink for 69 bytes is cut in the line under the first of two headers. -/
theorem run_transcript_cut :
    let text := "MONITOR END MAIN_END"
    let builder : Scripted := ⟨[], [], [], true⟩
    let r := run .empty builder text true (BoundedSink.ofSize 69)
    let shown := "ERROR (line 1, column 1): Expected a 'DEVICES' statement here\nMONITOR"
    r.errorCount = 2 ∧ r.output.sink.accepted.toList = bytes shown ∧
      r.output.error.isSome = true := by
  intro text builder r shown
  let hidden := " END MAIN_END\n^\nERROR (line 1, column 1): Expected a 'CONNECTIONS' statement " ++
    "here\nMONITOR END MAIN_END\n^\n"
  obtain ⟨hreported, -, hcount, -, hsize⟩ := run_transcript .empty builder text true
    BoundedSink.fills (BoundedSink.ofSize 69)
  obtain ⟨haccepted, herror⟩ := hsize 69 rfl
  have hdiagnostics : r.parsed.diagnostics =
      [⟨.syntactic .expectedDevices, .token ⟨.keyword .monitor, ⟨1, 1⟩⟩⟩,
        ⟨.syntactic .expectedConnections, .token ⟨.keyword .monitor, ⟨1, 1⟩⟩⟩] := by
    rw [show r.parsed = parse .empty builder text from congrArg Reported.parsed hreported]
    unfold builder text
    cbv
  have htranscript : transcript (Text.lines text.toList) true r.parsed.diagnostics =
      shown ++ hidden := by
    rw [hdiagnostics]
    decide +kernel
  have hshown : (bytes shown).length = 69 := by decide +kernel
  have hhidden : 0 < (bytes hidden).length := by decide +kernel
  refine ⟨hcount.trans (congrArg List.length hdiagnostics), ?_, ?_⟩
  · rw [haccepted, htranscript, bytes_append, ← List.take_eq_take_min]
    exact List.take_left' hshown
  · rw [herror, htranscript, bytes_append, List.length_append]
    omega

end Reporter

end LogicNet
