import LogicNet.Proofs.Connections
import LogicNet.Proofs.Numbers
import LogicNet.Proofs.Rejection

/-!
# Where a second connection is blamed

When a connection is refused because its input is connected already, the report points at a pin of
it. The circuit finds out which end is the input, but it says only why it refuses, and the reader
points at the pin behind the dash, which is the input in most files.

For every text there is one word that the report should point at, `ConnectionDecl.NamesDriven`, and
the report points there exactly if the connection has its input behind the dash (`parse_blame`).
Where the input is written before the dash, the report points at the output
(`parse_blames_output`).

The events of a parse are said of the circuit at that time: the calls that were made before tell
what it was.
-/

namespace LogicNet

open Text (Position)

/-! ## Inputs that are driven -/

namespace Circuit

variable {t : NameTable} {c : Circuit} {p q s : Signal} {d : Device} {pin : NameId}

/-- A signal names an input that has a source. -/
def Driven (c : Circuit) (s : Signal) : Prop :=
  ∃ d ∈ c.devices, ∃ pin source, s = ⟨d.id, some pin⟩ ∧ ⟨pin, some source⟩ ∈ d.inputs

theorem Driven.hasInput (h : c.Driven s) : c.HasInput s := by
  obtain ⟨d, hd, pin, source, rfl, hmem⟩ := h
  exact ⟨d, hd, rfl, Device.hasInput_of_mem hmem⟩

theorem Indexed.driven (h : c.Indexed) (hd : c.device? s.device = some d)
    (hin : d.role s.pin = .input pin) (hsource : (d.source? pin).isSome = true) : c.Driven s := by
  obtain ⟨hmem, hs, k, hk⟩ := h.exists_place hd hin
  obtain ⟨source, hsource⟩ := Option.isSome_iff_exists.mp hsource
  rw [hsource] at hk
  exact ⟨d, hmem, pin, source, hs, List.mem_of_getElem? hk⟩

/-- An input is connected already if one end is driven, and the other end is an output. -/
theorem Indexed.driven_of_inputConnected (h : c.Indexed)
    (hc : c.connect p.device p.pin q.device q.pin = .error .inputConnected) :
    c.Driven p ∧ c.HasOutput q ∨ c.Driven q ∧ c.HasOutput p := by
  unfold connect at hc
  cases hd : c.device? p.device with
  | none => simp [hd] at hc
  | some d =>
      cases he : c.device? q.device with
      | none => simp [hd, he] at hc
      | some e =>
          cases hp : d.role p.pin <;> cases hq : e.role q.pin <;> simp only [hd, he, hp, hq] at hc
          case input.output pin =>
            have hsource := (drive_eq_error_iff.mp hc).2
            exact .inl ⟨h.driven hd hp hsource, h.hasOutput he (Device.role_eq_output_iff.mp hq).2⟩
          case output.input pin =>
            have hsource := (drive_eq_error_iff.mp hc).2
            exact .inr ⟨h.driven he hq hsource, h.hasOutput hd (Device.role_eq_output_iff.mp hp).2⟩
          all_goals cases hc

end Circuit

/-! ## The word to blame -/

namespace ConnectionDecl

variable {x : ConnectionDecl} {t names : NameTable} {c : Circuit} {w : Word}

/-- A word of a connection names an input that has a source. -/
def NamesDriven (x : ConnectionDecl) (names : NameTable) (c : Circuit) (w : Word) : Prop :=
  x.outPin = some w ∧ c.Driven (x.first.signal names) ∨
    x.inPin = w ∧ c.Driven (x.second.signal names)

/-- A connection that is refused is one that the circuit cannot make. -/
theorem connect_of_answer {e : ConnectionError} {next : Circuit}
    (h : NetworkBuilder.answer c ((Declaration.connection x).call names.idFor) =
      (some (.connection e), next)) :
    c.connect (x.first.signal names).device (x.first.signal names).pin
      (x.second.signal names).device (x.second.signal names).pin = .error e := by
  have hpin : (x.first.signal names).pin = x.outPin.map fun w => names.idFor w.text :=
    Option.map_map ..
  obtain rfl := Circuit.eq_of_answer_some h
  obtain ⟨e', he, hkind⟩ := Circuit.refuses_connection_iff.mp h
  obtain rfl := ErrorKind.connection.inj hkind
  rw [hpin]
  exact he

/-- Of a connection whose input is connected already, one word names it. -/
theorem exists_namesDriven (h : c.Consistent t)
    (hc : c.connect (x.first.signal names).device (x.first.signal names).pin
      (x.second.signal names).device (x.second.signal names).pin = .error .inputConnected) :
    ∃ w, (∀ v, x.NamesDriven names c v ↔ v = w) ∧
      (x.inPin = w ∧ c.Driven (x.second.signal names) ∨
        x.outPin = some w ∧ ¬ c.Driven (x.second.signal names)) := by
  have hnot : ∀ {s}, c.HasOutput s → ¬ c.Driven s := fun ho hs => h.not_hasOutput hs.hasInput ho
  rcases h.indexed.driven_of_inputConnected hc with ⟨hfirst, ho⟩ | ⟨hsecond, ho⟩
  · -- an input has a name, so there is a word for it
    obtain ⟨w, hw⟩ : ∃ w, x.outPin = some w := by
      obtain ⟨d, -, pin, source, heq, -⟩ := hfirst
      rw [← Option.isSome_iff_exists, ← Option.isSome_map (f := Word.text),
        ← Option.isSome_map (f := names.idFor)]
      exact Option.isSome_iff_exists.mpr ⟨pin, congrArg Signal.pin heq⟩
    refine ⟨w, fun v => ?_, .inr ⟨hw, hnot ho⟩⟩
    simp only [NamesDriven, hfirst, hnot ho, hw, and_true, and_false, or_false, Option.some.injEq,
      eq_comm]
  · refine ⟨x.inPin, fun v => ?_, .inl ⟨rfl, hsecond⟩⟩
    simp only [NamesDriven, hsecond, hnot ho, and_true, and_false, false_or, eq_comm]

/-- The pin before the dash stands before the pin behind it. -/
theorem outPin_before_inPin {text : String} {p : Position}
    (h : (.connection x, p) ∈ (TokenStream.ofText text).declarations) (hw : x.outPin = some w) :
    w.pos.Before x.inPin.pos := by
  obtain ⟨b, us, hd, before, after, htokens⟩ := TokenStream.exists_infix_of_mem_declarations h
  have hordered := TokenStream.ordered_ofText text
  rw [← htokens] at hordered
  cases hd with
  | connection => cases hw
  | @pinConnection outDevice outPin inDevice inPin outDot dash dot semicolon =>
      obtain rfl := Option.some.inj hw
      let ahead := before ++ [outDevice.token, ⟨.dot, outDot⟩, outPin.token]
      let behind := [⟨.dash, dash⟩, inDevice.token, ⟨.dot, dot⟩, inPin.token,
        ⟨.semicolon, semicolon⟩] ++ after
      have hsplit : before ++ [outDevice.token, ⟨.dot, outDot⟩, outPin.token, ⟨.dash, dash⟩,
          inDevice.token, ⟨.dot, dot⟩, inPin.token, ⟨.semicolon, semicolon⟩] ++ after =
            ahead ++ behind := by
        simp [ahead, behind]
      rw [hsplit] at hordered
      have hpin : inPin.symbol ∈ (TokenStream.ofText text).ending.symbolsFrom behind := by
        simp [behind, Ending.symbolsFrom, Word.symbol, Word.token]
      exact hordered.before (t := outPin.token) (by simp [ahead]) hpin

end ConnectionDecl

/-! ## The declaration that is refused -/

/-- Only a connection is refused because its input is connected, and its second pin is blamed. -/
theorem Declaration.Blames.eq_inPin {d : Declaration} {symbol : Symbol}
    (h : d.Blames (.connection .inputConnected) symbol) :
    ∃ x : ConnectionDecl, d = .connection x ∧ symbol = x.inPin.symbol := by
  cases h with
  | outDevice h | inDevice h => simp at h
  | @inPin x => exact ⟨x, rfl, rfl⟩

namespace Progress

variable {β : Type} [NetworkBuilder β] {ids : String → NameId}

/-- A call that is refused hands over a declaration, and is reported at once. -/
theorem step_eq_refused {p : Progress β} {item : Item} {ahead behind : List Event} {call : Call}
    {kind : ErrorKind} (h : (p.step ids item).1 = ahead ++ .called call (some kind) :: behind) :
    ∃ (x : Declaration) (b : β) (symbol : Symbol), item = .declared x ∧ p.blocked = false ∧
      call = x.call ids ∧ NetworkBuilder.answer p.builder call = (some kind, b) ∧
      x.Blames kind symbol ∧ ahead = [] ∧ behind = [.reported ⟨kind, symbol⟩] := by
  cases item with
  | opened b => simp [step] at h
  | fault error symbol => simp [step, List.singleton_eq_append_iff] at h
  | closed b last =>
      have hcalls := congrArg (List.filterMap Event.call?) h
      rw [(step_closed p ids b last).1] at hcalls
      simp [Event.call?] at hcalls
  | declared x =>
      rw [step] at h
      split at h
      · simp at h
      · next hopen =>
        rcases p.declare_cases ids x with
          ⟨-, hd⟩ | ⟨-, ⟨b, -, hd⟩ | ⟨b, kind', symbol, hb, hblames, hd⟩⟩
        · simp [hd] at h
        · simp [hd, List.singleton_eq_append_iff] at h
        · rw [hd] at h
          cases ahead with
          | nil =>
              obtain ⟨⟨rfl, rfl⟩, rfl⟩ : (_ ∧ kind' = kind) ∧ _ := by simpa using h
              exact ⟨x, b, symbol, rfl, (Bool.not_eq_true _).mp hopen, rfl, hb, hblames, rfl, rfl⟩
          | cons => simp [List.singleton_eq_append_iff] at h

/-- **A refused call belongs to one declaration**, and the report is right behind it. -/
theorem steps_eq_refused {p : Progress β} {items : List Item} {before after : List Event}
    {call : Call} {kind : ErrorKind}
    (h : (p.steps ids items).1 = before ++ .called call (some kind) :: after) :
    ∃ (past rest : List Item) (x : Declaration) (b : β) (symbol : Symbol) (later : List Event),
      items = past ++ .declared x :: rest ∧ before = (p.steps ids past).1 ∧
      (p.steps ids past).2.blocked = false ∧ call = x.call ids ∧
      NetworkBuilder.answer (p.steps ids past).2.builder call = (some kind, b) ∧
      x.Blames kind symbol ∧ after = .reported ⟨kind, symbol⟩ :: later := by
  obtain ⟨past, item, rest, ahead, behind, rfl, hbefore, hstep⟩ := steps_eq_append_cons h
  obtain ⟨x, b, symbol, rfl, hopen, hcall, hanswer, hblames, rfl, rfl⟩ := step_eq_refused hstep
  rw [List.append_nil] at hbefore
  rw [steps_append, steps, hstep, hbefore, List.nil_append, List.cons_append] at h
  have hafter := (List.cons.inj (List.append_cancel_left h)).2
  exact ⟨past, rest, x, b, symbol, _, rfl, hbefore, hopen, hcall, hanswer, hblames, hafter.symm⟩

/-- What is handed over can be built. -/
theorem mem_buildable {p : Progress β} {past rest : List Item} {x : Declaration}
    (hopen : (p.steps ids past).2.blocked = false) :
    x ∈ p.buildable (past ++ .declared x :: rest) := by
  induction past generalizing p with
  | nil =>
      rw [List.nil_append, buildable, if_neg (Bool.not_eq_true _ ▸ hopen)]
      exact List.mem_cons_self
  | cons item past ih =>
      rw [List.cons_append, p.buildable_cons ids]
      exact List.mem_append_right _ (ih hopen)

/-- What is handed over is written in the text. -/
theorem exists_mem_declarations (builder : β) {text : String} {past rest : List Item}
    {x : Declaration} (hitems : (Outline.ofStream (.ofText text)).items =
      past ++ .declared x :: rest)
    (hopen : ((start builder).steps ids past).2.blocked = false) :
    ∃ p, (x, p) ∈ (TokenStream.ofText text).declarations := by
  have hmem : x ∈ (start builder).buildable (past ++ .declared x :: rest) := mem_buildable hopen
  rw [← hitems, buildable, if_neg (by simp [start]),
    Outline.buildable_ofStream (TokenStream.ordered_ofText text)] at hmem
  obtain ⟨⟨_, p⟩, hdeclared, rfl⟩ := List.mem_map.mp hmem
  exact ⟨p, (List.mem_filter.mp hdeclared).1⟩

/-- The circuit is what the calls so far have made of it. -/
theorem builder_steps_start (c : Circuit) (ids : String → NameId) (items : List Item) :
    ((start c).steps ids items).2.builder =
      c.after (((start c).steps ids items).1.filterMap Event.call?) := by
  have hnothing : Settled (start c).rejected (start c).builder [] := by simp [Settled, start]
  exact (settled_steps ids hnothing items).1

end Progress

/--
**Where a second connection to an input is blamed**, whatever the circuit has seen before and
whatever the text is. One of the words of the declaration names the input that has a source when the
call is made. The report comes right behind the call and is at the pin behind the dash, so it is at
that word if and only if the input is the end behind the dash.
-/
theorem parse_blame (names : NameTable) (calls : List Call) (t : NameTable) (text : String) :
    let c := (Circuit.start names).2.after calls
    let r := parse t c text
    ∀ before call after,
      r.events = before ++ .called call (some (.connection .inputConnected)) :: after →
      let now := c.after (before.filterMap Event.call?)
      ∃ (x : ConnectionDecl) (p : Position) (w : Word) (d : Diagnostic) (later : List Event),
        (.connection x, p) ∈ (TokenStream.ofText text).declarations ∧
          call = (Declaration.connection x).call r.names.idFor ∧
          after = .reported d :: later ∧
          d.kind = .connection .inputConnected ∧ d.anchor = x.inPin.symbol ∧
          (∀ v, x.NamesDriven r.names now v ↔ v = w) ∧
          (d.pos = w.pos ↔ now.Driven (x.second.signal r.names)) := by
  intro c r before call after hevents now
  obtain ⟨t₀, ht₀, hc⟩ : ∃ t, t.HasVocabulary ∧ c.Consistent t :=
    Circuit.exists_consistent names calls
  have hnow : now.Consistent t₀ := Circuit.consistent_after ht₀ hc _
  have hrun : ((Progress.start c).steps r.names.idFor (Outline.ofStream (.ofText text)).items).1 =
      before ++ .called call (some (.connection .inputConnected)) :: after := hevents
  obtain ⟨past, rest, y, b, symbol, later, hitems, hbefore, hopen, hcall, hanswer, hblames,
    hafter⟩ := Progress.steps_eq_refused hrun
  obtain ⟨p, hdeclared⟩ := Progress.exists_mem_declarations c hitems hopen
  obtain ⟨x, rfl, rfl⟩ := hblames.eq_inPin
  rw [Progress.builder_steps_start, ← hbefore] at hanswer
  obtain ⟨w, hnames, hend⟩ := ConnectionDecl.exists_namesDriven hnow
    (ConnectionDecl.connect_of_answer (hcall ▸ hanswer))
  refine ⟨x, p, w, _, later, hdeclared, hcall, hafter, rfl, rfl, hnames, ?_⟩
  rcases hend with ⟨rfl, hdriven⟩ | ⟨hw, hfree⟩
  · exact iff_of_true rfl hdriven
  · -- the word stands before the dash, and the report is behind it
    refine iff_of_false (fun hpos => ?_) hfree
    have hbefore := ConnectionDecl.outPin_before_inPin hdeclared hw
    rw [← hpos] at hbefore
    exact Position.Before.irrefl _ hbefore

set_option maxRecDepth 4000 in
/-- Where the input is written behind the dash, the report is at the word that names it. -/
theorem parse_blames_input :
    let text := "DEVICES DTYPE=F; END CONNECTIONS F.Q-F.CLK; F.QBAR-F.CLK; END " ++
      "MONITOR END MAIN_END"
    let start := Circuit.start .empty
    let r := parse start.1 start.2 text
    let now := start.2.after ((r.events.take 2).filterMap Event.call?)
    let call := Call.connection ⟨35⟩ (some ⟨29⟩) ⟨35⟩ (some ⟨25⟩)
    r.events = r.events.take 2 ++
        .called call (some (.connection .inputConnected)) :: r.events.drop 3 ∧
      ∃ (x : ConnectionDecl) (w : Word) (d : Diagnostic) (later : List Event),
        r.events.drop 3 = .reported d :: later ∧ (∀ v, x.NamesDriven r.names now v ↔ v = w) ∧
          d.pos = w.pos := by
  intro text start r now call
  have hrun : r.events =
      [.called (.device ⟨35⟩ ⟨7⟩ none) none,
        .called (.connection ⟨35⟩ (some ⟨28⟩) ⟨35⟩ (some ⟨25⟩)) none,
        .called call (some (.connection .inputConnected)),
        .reported ⟨.connection .inputConnected, .token ⟨.name "CLK", ⟨1, 54⟩⟩⟩] := by
    unfold r start text call
    cbv
  have hevents : r.events = r.events.take 2 ++
      .called call (some (.connection .inputConnected)) :: r.events.drop 3 := by
    rw [hrun]
    rfl
  have hdriven : now.Driven ⟨⟨35⟩, some ⟨25⟩⟩ := by
    unfold now
    rw [hrun]
    exact ⟨_, List.mem_cons_self, ⟨25⟩, ⟨⟨35⟩, some ⟨28⟩⟩, rfl, by decide⟩
  refine ⟨hevents, ?_⟩
  obtain ⟨x, -, w, d, later, -, hcall, hafter, -, -, hnames, hpos⟩ :=
    parse_blame .empty [] start.1 text _ _ _ hevents
  -- the call tells which pin is behind the dash
  obtain ⟨-, -, hdevice, hpin⟩ := Call.connection.inj hcall
  have hsecond : x.second.signal r.names = ⟨⟨35⟩, some ⟨25⟩⟩ :=
    congrArg₂ Signal.mk hdevice.symm hpin.symm
  exact ⟨x, w, d, later, hafter, hnames, hpos.mpr (hsecond ▸ hdriven)⟩

set_option maxRecDepth 4000 in
/-- Where the input is written before the dash, the report is at the output behind it. -/
theorem parse_blames_output :
    let text := "DEVICES DTYPE=F; END CONNECTIONS F.Q-F.CLK; F.CLK-F.Q; END " ++
      "MONITOR END MAIN_END"
    let start := Circuit.start .empty
    let r := parse start.1 start.2 text
    let now := start.2.after ((r.events.take 2).filterMap Event.call?)
    let x : ConnectionDecl :=
      ⟨⟨"F", ⟨1, 45⟩⟩, some ⟨"CLK", ⟨1, 47⟩⟩, ⟨"F", ⟨1, 51⟩⟩, ⟨"Q", ⟨1, 53⟩⟩⟩
    r.events.drop 2 =
        [.called ((Declaration.connection x).call r.names.idFor)
          (some (.connection .inputConnected)),
          .reported ⟨.connection .inputConnected, .token ⟨.name "Q", ⟨1, 53⟩⟩⟩] ∧
      ∀ v, x.NamesDriven r.names now v ↔ v = ⟨"CLK", ⟨1, 47⟩⟩ := by
  intro text start r now x
  have hids : ["F", "CLK", "Q"].map r.names.idFor = [⟨35⟩, ⟨25⟩, ⟨28⟩] := by
    unfold r start text
    cbv
  obtain ⟨hF, hCLK, hQ⟩ : r.names.idFor "F" = ⟨35⟩ ∧ r.names.idFor "CLK" = ⟨25⟩ ∧
      r.names.idFor "Q" = ⟨28⟩ := by simpa using hids
  have hrun : r.events =
      [.called (.device ⟨35⟩ ⟨7⟩ none) none,
        .called (.connection ⟨35⟩ (some ⟨28⟩) ⟨35⟩ (some ⟨25⟩)) none,
        .called (.connection ⟨35⟩ (some ⟨25⟩) ⟨35⟩ (some ⟨28⟩))
          (some (.connection .inputConnected)),
        .reported ⟨.connection .inputConnected, .token ⟨.name "Q", ⟨1, 53⟩⟩⟩] := by
    unfold r start text
    cbv
  have hfirst : x.first.signal r.names = ⟨⟨35⟩, some ⟨25⟩⟩ :=
    congrArg₂ Signal.mk hF (congrArg some hCLK)
  have hsecond : x.second.signal r.names = ⟨⟨35⟩, some ⟨28⟩⟩ :=
    congrArg₂ Signal.mk hF (congrArg some hQ)
  -- the first connection was made, and it drives the clock input
  have hdriven : now.Driven (x.first.signal r.names) := by
    unfold now
    rw [hrun, hfirst]
    exact ⟨_, List.mem_cons_self, ⟨25⟩, ⟨⟨35⟩, some ⟨28⟩⟩, rfl, by decide⟩
  -- and the other pin is an output
  have hnot : ¬ now.Driven (x.second.signal r.names) := by
    obtain ⟨t, -, hc⟩ := Circuit.exists_consistent .empty
      ((r.events.take 2).filterMap Event.call?)
    refine fun h => hc.not_hasOutput h.hasInput ?_
    rw [hrun, hsecond]
    exact ⟨_, List.mem_cons_self, rfl, by decide⟩
  refine ⟨?_, fun v => ?_⟩
  · rw [hrun]
    simp [Declaration.call, x, hF, hCLK, hQ]
  · simp [ConnectionDecl.NamesDriven, hdriven, hnot, x, eq_comm]

end LogicNet
