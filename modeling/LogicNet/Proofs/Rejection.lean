import LogicNet.Proofs.Repetition

/-!
# A rejected device makes no further noise

A device that the circuit refuses is reported once, at its declaration. What refers to it later is
passed over in silence, so nobody is told that a device is absent which was in fact declared, only
wrongly.

That rests on one invariant, `Settled`: what was declared so far is in the circuit or is rejected,
and not both. It has to hold however often a name is declared. A name that is refused may be
declared again in good order, and then it is there and is rejected no longer; a name that is there
may be declared again, and that second declaration is refused without the first being rejected for
it.

An event of a run belongs to one step of it (`Progress.steps_eq_append_cons`), so what is to be said
of the events is said of the steps.
-/

namespace LogicNet

/-- Whether an error says that a device is not there. -/
def ErrorKind.isAbsence : ErrorKind → Bool
  | .connection .outputDeviceAbsent | .connection .inputDeviceAbsent | .monitor .deviceAbsent =>
    true
  | _ => false

/-- The builder was asked for a device, and has taken or refused it. -/
def Event.Asked (id : NameId) (es : List Event) : Prop :=
  ∃ type qualifier refusal, called (.device id type qualifier) refusal ∈ es

theorem Event.asked_iff {id : NameId} {es : List Event} :
    Asked id es ↔ ∃ type qualifier, Call.device id type qualifier ∈ es.filterMap call? := by
  refine ⟨?_, ?_⟩
  · intro h
    obtain ⟨type, qualifier, refusal, hmem⟩ := h
    exact ⟨type, qualifier, List.mem_filterMap.mpr ⟨_, hmem, rfl⟩⟩
  · intro h
    obtain ⟨type, qualifier, hmem⟩ := h
    obtain ⟨e, he, hcall⟩ := List.mem_filterMap.mp hmem
    cases e with
    | called call refusal =>
        obtain rfl := Option.some.inj hcall
        exact ⟨type, qualifier, refusal, he⟩
    | checked => cases hcall
    | reported => cases hcall

namespace Circuit

variable {c : Circuit} {id : NameId}

theorem Indexed.lookup_eq_none_iff (h : c.Indexed) :
    c.index.lookup id = none ↔ ¬ ∃ d ∈ c.devices, d.id = id := by
  refine Iff.trans ?_ (not_congr (?_ : (∃ i, c.index.lookup id = some i) ↔ _))
  · rw [← Option.ne_none_iff_exists', not_not]
  · refine ⟨?_, ?_⟩
    · intro hi
      obtain ⟨i, hi⟩ := hi
      obtain ⟨d, hd, hid⟩ := (h id i).mp hi
      exact ⟨d, List.mem_of_getElem? hd, hid⟩
    · intro hd
      obtain ⟨d, hmem, hid⟩ := hd
      obtain ⟨i, hi⟩ := List.mem_iff_getElem?.mp hmem
      exact ⟨i, (h id i).mpr ⟨d, hi, hid⟩⟩

theorem Indexed.device?_eq_none_iff (h : c.Indexed) :
    c.device? id = none ↔ c.index.lookup id = none := by
  rw [h.lookup_eq_none_iff, Option.eq_none_iff_forall_ne_some]
  simp only [ne_eq, h.device?_eq_some_iff, not_and, not_exists]

/-- Where both devices are there, none is called absent. -/
theorem connect_ne_absent {first second : NameId} {firstPin secondPin : Option NameId}
    {d e : Device} (hd : c.device? first = some d) (he : c.device? second = some e)
    {error : ConnectionError} (herror : (ErrorKind.connection error).isAbsence = true) :
    c.connect first firstPin second secondPin ≠ .error error := by
  have hdrive : ∀ {x : Device} {pin : NameId} {source : Signal},
      c.drive x pin source ≠ .error error := by
    intro x pin source h
    obtain ⟨rfl, -⟩ := drive_eq_error_iff.mp h
    cases herror
  rw [connect, hd, he]
  dsimp only
  split
  · exact hdrive
  · exact hdrive
  all_goals
    rintro ⟨⟩
    cases herror

theorem device?_of_outputDeviceAbsent {first second : NameId} {firstPin secondPin : Option NameId}
    (h : c.connect first firstPin second secondPin = .error .outputDeviceAbsent) :
    c.device? first = none := by
  cases hd : c.device? first with
  | none => rfl
  | some d =>
      cases he : c.device? second with
      | none => simp [connect, hd, he] at h
      | some e => exact absurd h (connect_ne_absent hd he rfl)

theorem device?_of_inputDeviceAbsent {first second : NameId} {firstPin secondPin : Option NameId}
    (h : c.connect first firstPin second secondPin = .error .inputDeviceAbsent) :
    c.device? second = none := by
  cases he : c.device? second with
  | none => rfl
  | some e =>
      cases hd : c.device? first with
      | none => simp [connect, hd] at h
      | some d => exact absurd h (connect_ne_absent hd he rfl)

theorem device?_of_deviceAbsent {pin : Option NameId}
    (h : c.addMonitor id pin = .error .deviceAbsent) : c.device? id = none := by
  cases hd : c.device? id with
  | none => rfl
  | some d =>
      simp only [addMonitor, hd] at h
      split at h
      · cases h
      · split at h <;> cases h

end Circuit

/-- What the circuit calls absent is a device that the declaration refers to, and is not there. -/
theorem Declaration.Blames.absent {ids : String → NameId} {c : Circuit} (hc : c.Indexed)
    {d : Declaration} {kind : ErrorKind} {symbol : Symbol} (h : d.Blames kind symbol)
    (hkind : kind.isAbsence = true) (hrefused : c.Refuses (d.call ids) kind) :
    ∃ w ∈ d.refersTo, symbol = w.symbol ∧ c.index.lookup (ids w.text) = none := by
  simp only [← hc.device?_eq_none_iff]
  cases h with
  | name | kind _ | qualifier _ _ | unwritten _ _ | inPin | outPin _ | noOutPin _ => cases hkind
  | @outDevice d e he =>
      obtain rfl : e = .outputDeviceAbsent := he.resolve_right (by rintro rfl; cases hkind)
      obtain ⟨e, he, hcause⟩ := Circuit.refuses_connection_iff.mp hrefused
      obtain rfl := ErrorKind.connection.inj hcause
      exact ⟨d.outDevice, by simp [refersTo], rfl, Circuit.device?_of_outputDeviceAbsent he⟩
  | @inDevice d e he =>
      obtain rfl : e = .inputDeviceAbsent := he.resolve_right (by rintro rfl; cases hkind)
      obtain ⟨e, he, hcause⟩ := Circuit.refuses_connection_iff.mp hrefused
      obtain rfl := ErrorKind.connection.inj hcause
      exact ⟨d.inDevice, by simp [refersTo], rfl, Circuit.device?_of_inputDeviceAbsent he⟩
  | @monitored d e =>
      obtain ⟨e, he, hcause⟩ := Circuit.refuses_monitor_iff.mp hrefused
      obtain rfl := ErrorKind.monitor.inj hcause
      obtain rfl : e = .deviceAbsent := by
        cases e <;> first | rfl | cases hkind
      exact ⟨d.device, by simp [refersTo], rfl, Circuit.device?_of_deviceAbsent he⟩

namespace Progress

variable {β : Type} [NetworkBuilder β] {ids : String → NameId}

/-- **An event of a run belongs to one step of it.** -/
theorem steps_eq_append_cons {p : Progress β} {items : List Item} {before after : List Event}
    {e : Event} (h : (p.steps ids items).1 = before ++ e :: after) :
    ∃ past item rest ahead behind, items = past ++ item :: rest ∧
      before = (p.steps ids past).1 ++ ahead ∧
      ((p.steps ids past).2.step ids item).1 = ahead ++ e :: behind := by
  induction items generalizing p before with
  | nil => exact absurd h (by simp)
  | cons item items ih =>
      have hrest : ∀ before' : List Event, before = (p.step ids item).1 ++ before' →
          ((p.step ids item).2.steps ids items).1 = before' ++ e :: after →
          ∃ past item' rest ahead behind, item :: items = past ++ item' :: rest ∧
            before = (p.steps ids past).1 ++ ahead ∧
            ((p.steps ids past).2.step ids item').1 = ahead ++ e :: behind := by
        intro before' hbefore hevents
        obtain ⟨past, item', rest, ahead, behind, rfl, rfl, hstep⟩ := ih hevents
        refine ⟨item :: past, item', rest, ahead, behind, rfl, ?_, hstep⟩
        rw [hbefore, steps, List.append_assoc]
      rw [steps] at h
      rcases List.append_eq_append_iff.mp h with ⟨before', hbefore, hevents⟩ | ⟨ahead, hahead, he⟩
      · exact hrest before' hbefore hevents
      · cases ahead with
        | nil =>
            rw [List.append_nil] at hahead
            refine hrest [] ?_ he.symm
            rw [List.append_nil, hahead]
        | cons e' behind =>
            obtain ⟨rfl, -⟩ := List.cons.inj he
            exact ⟨[], item, items, before, behind, rfl, rfl, hahead⟩

/-- What a step reports is a fault of form, or that one declaration is refused. -/
theorem step_reports (p : Progress β) (ids : String → NameId) (item : Item) :
    (∀ d, .reported d ∈ (p.step ids item).1 → d.kind.isSemantic = false) ∨
      ∃ (x : Declaration) (b : β) (d : Diagnostic), x.isFree ids (· ∈ p.rejected) = true ∧
        NetworkBuilder.answer p.builder (x.call ids) = (some d.kind, b) ∧
        x.Blames d.kind d.anchor ∧
        (p.step ids item).1 = [.called (x.call ids) (some d.kind), .reported d] := by
  cases item with
  | opened b => exact .inl (by simp [step])
  | fault error symbol => exact .inl (by simp [step, ErrorKind.isSemantic])
  | closed b last =>
      left
      simp only [step, check]
      split
      · split <;> simp [ErrorKind.isSemantic]
      · simp
  | declared x =>
      rw [step]
      split
      · exact .inl (by simp)
      · rcases p.declare_cases ids x with
          ⟨-, hd⟩ | ⟨hfree, ⟨b, -, hd⟩ | ⟨b, kind, symbol, hb, hblames, hd⟩⟩
        · exact .inl (by simp [hd])
        · exact .inl (by simp [hd])
        · exact .inr ⟨x, b, ⟨kind, symbol⟩, hfree, hb, hblames, congrArg Prod.fst hd⟩

/-- A refused declaration is reported right behind its call. -/
theorem step_eq_reported {p : Progress β} {item : Item} {ahead behind : List Event}
    {d : Diagnostic} (h : (p.step ids item).1 = ahead ++ .reported d :: behind)
    (hd : d.kind.isSemantic = true) :
    ∃ (x : Declaration) (b : β), x.isFree ids (· ∈ p.rejected) = true ∧
      NetworkBuilder.answer p.builder (x.call ids) = (some d.kind, b) ∧
      x.Blames d.kind d.anchor ∧ ahead = [.called (x.call ids) (some d.kind)] := by
  rcases p.step_reports ids item with hform | ⟨x, b, d', hfree, hb, hblames, hevents⟩
  · rw [hform d (by simp [h])] at hd
    cases hd
  · rw [hevents] at h
    match ahead, h with
    | [_], h =>
        obtain ⟨rfl, rfl, -⟩ : _ ∧ d' = d ∧ _ := by simpa using h
        exact ⟨x, b, hfree, hb, hblames, rfl⟩
    | _ :: _ :: _, h => simp at h

/-- A declaration that refers to a rejected device is passed over, and one refusal is one report. -/
theorem step_declared (p : Progress β) (ids : String → NameId) (d : Declaration) :
    ((∃ w ∈ d.refersTo, ids w.text ∈ p.rejected) → (p.step ids (.declared d)).1 = []) ∧
      ∀ kind, .called (d.call ids) (some kind) ∈ (p.step ids (.declared d)).1 → ∃ symbol,
        d.Blames kind symbol ∧ (p.step ids (.declared d)).1 =
          [.called (d.call ids) (some kind), .reported ⟨kind, symbol⟩] := by
  have hblocked : (p.step ids (.declared d)).1 = [] ∨
      (p.step ids (.declared d)).1 = (p.declare ids d).1 := by
    rw [step]
    split
    · exact .inl rfl
    · exact .inr rfl
  rcases hblocked with hes | hes
  · simp [hes]
  · rw [hes]
    refine ⟨?_, ?_⟩
    · intro hrefers
      obtain ⟨w, hw, hrejected⟩ := hrefers
      rcases p.declare_cases ids d with ⟨-, hd⟩ | ⟨hfree, -⟩
      · rw [hd]
      · simpa [hrejected] using List.all_eq_true.mp hfree w hw
    · intro kind hcalled
      rcases p.declare_cases ids d with
        ⟨-, hd⟩ | ⟨-, ⟨b, -, hd⟩ | ⟨b, kind', symbol, -, hblames, hd⟩⟩
      · simp [hd] at hcalled
      · simp [hd] at hcalled
      · obtain rfl : kind = kind' := by simpa [hd] using hcalled
        exact ⟨symbol, hblames, by rw [hd]⟩

/-- **Whoever is called absent was not asked for before.** -/
theorem not_asked_of_absent {p : Progress Circuit} {past : List Event}
    (hsettled : Settled p.rejected p.builder (past.filterMap Event.call?))
    (hindexed : p.builder.Indexed) {item : Item} {ahead behind : List Event} {d : Diagnostic}
    (h : (p.step ids item).1 = ahead ++ .reported d :: behind) (habsent : d.kind.isAbsence = true) :
    ∃ w : Word, d.anchor = w.symbol ∧ ¬ Event.Asked (ids w.text) (past ++ ahead) := by
  obtain ⟨x, b, hfree, hanswer, hblames, rfl⟩ := step_eq_reported h (by
    revert habsent
    cases d.kind <;> simp [ErrorKind.isAbsence, ErrorKind.isSemantic])
  obtain ⟨next, htaken⟩ | ⟨kind, hrefused⟩ := p.builder.taken_or_refuses (x.call ids)
  · rw [hanswer] at htaken
    cases htaken
  · obtain rfl : d.kind = kind := by
      simpa using congrArg Prod.fst (hanswer.symm.trans hrefused)
    obtain ⟨w, hw, hanchor, hlookup⟩ := hblames.absent hindexed habsent hrefused
    refine ⟨w, hanchor, fun hasked => ?_⟩
    have hout : ids w.text ∉ p.rejected := by simpa using List.all_eq_true.mp hfree w hw
    obtain ⟨type, qualifier, refusal, hmem⟩ := hasked
    rcases List.mem_append.mp hmem with hmem | hmem
    · -- what was asked for and is not there is rejected, and then it would have been passed over
      have hcalled := Event.asked_iff.mp ⟨type, qualifier, refusal, hmem⟩
      exact hout ((hsettled _).mpr ⟨hcalled, hlookup⟩)
    · -- the call that was refused asks for no device
      cases x with
      | device x => cases hw
      | connection x => simp [Declaration.call] at hmem
      | monitor x => simp [Declaration.call] at hmem

/-- What is rejected after some items is what was asked for and is not there. -/
theorem settled_start {c : Circuit} {t : NameTable} (ht : t.HasVocabulary) (hc : c.Consistent t)
    (ids : String → NameId) (items : List Item) :
    let p := (start c).steps ids items
    p.2.builder.Indexed ∧ Settled p.2.rejected p.2.builder (p.1.filterMap Event.call?) := by
  intro p
  have hnothing : Settled (start c).rejected (start c).builder [] := by simp [Settled, start]
  obtain ⟨hbuilder, hsettled⟩ := settled_steps ids hnothing items
  refine ⟨?_, hsettled⟩
  rw [hbuilder]
  exact (Circuit.consistent_after ht hc _).indexed

end Progress

/--
**A rejected device makes no further noise**, whatever the circuit has seen before and whatever the
text is. After every item that was read, a device that was declared is in the circuit or is
rejected, and not both. No device is called absent which the builder was asked for before. Every
declaration that is refused is reported once, right behind its call, and a declaration that refers
to a rejected device is neither handed over nor reported.
-/
theorem parse_rejection (names : NameTable) (calls : List Call) (t : NameTable) (text : String) :
    let c := (Circuit.start names).2.after calls
    let r := parse t c text
    let items := (Outline.ofStream (.ofText text)).items
    let reached := fun n => (Progress.start c).steps r.names.idFor (items.take n)
    (∀ n id, Event.Asked id (reached n).1 →
      Xor (∃ d ∈ (reached n).2.builder.devices, d.id = id) (id ∈ (reached n).2.rejected)) ∧
    (∀ before d after, r.events = before ++ .reported d :: after → d.kind.isAbsence = true →
      ∃ name pos, d.anchor = .token ⟨.name name, pos⟩ ∧
        ¬ Event.Asked (r.names.idFor name) before) ∧
    r.events = (reached items.length).1 ∧
    ∀ n d, items[n]? = some (.declared d) → ∃ es, (reached (n + 1)).1 = (reached n).1 ++ es ∧
      ((∃ w ∈ d.refersTo, r.names.idFor w.text ∈ (reached n).2.rejected) → es = []) ∧
      (∀ kind, .called (d.call r.names.idFor) (some kind) ∈ es → ∃ symbol,
        d.Blames kind symbol ∧
          es = [.called (d.call r.names.idFor) (some kind), .reported ⟨kind, symbol⟩]) := by
  intro c r items reached
  obtain ⟨t₀, ht₀, hstart⟩ := Circuit.start_eq names
  have hc : c.Consistent t₀ := by
    rw [show c = (Circuit.start names).2.after calls from rfl, hstart]
    exact Circuit.consistent_after ht₀ (Circuit.consistent_empty t₀) calls
  have hreached := Progress.settled_start ht₀ hc r.names.idFor
  refine ⟨?_, ?_, ?_, ?_⟩
  · intro n id hasked
    obtain ⟨hindexed, hsettled⟩ := hreached (items.take n)
    rw [hsettled id, ← Event.asked_iff, and_iff_right hasked, hindexed.lookup_eq_none_iff]
    exact xor_not_right.mpr Iff.rfl
  · intro before d after hevents habsent
    obtain ⟨past, item, rest, ahead, behind, -, rfl, hstep⟩ :=
      Progress.steps_eq_append_cons (p := Progress.start c) hevents
    obtain ⟨hindexed, hsettled⟩ := hreached past
    obtain ⟨w, hanchor, hasked⟩ :=
      Progress.not_asked_of_absent hsettled hindexed hstep habsent
    exact ⟨w.text, w.pos, hanchor, hasked⟩
  · simp only [reached, List.take_length]
    rfl
  · intro n d hd
    refine ⟨((reached n).2.step r.names.idFor (.declared d)).1, ?_, Progress.step_declared _ _ d⟩
    simp only [reached, List.take_add_one, hd, Option.toList_some, Progress.steps_append,
      Progress.steps, List.append_nil]

set_option maxRecDepth 4000 in
/-- `A` is rejected for its type and `S` was never declared: each is reported once. -/
example :
    let text := "DEVICES FLIP=A; OR,2=B; END CONNECTIONS A-B.I1; S-B.I1; END " ++
      "MONITOR A; END MAIN_END"
    let start := Circuit.start .empty
    (parse start.1 start.2 text).diagnostics =
      [⟨.device .badDevice, .token ⟨.name "FLIP", ⟨1, 9⟩⟩⟩,
        ⟨.connection .outputDeviceAbsent, .token ⟨.name "S", ⟨1, 49⟩⟩⟩] := by
  intro text start
  unfold start text
  cbv

end LogicNet
