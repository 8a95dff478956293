import LogicNet.Proofs.Faults

/-!
# What building remembers is what the events tell

While it goes through an outline, building keeps three things in mind: which devices are rejected,
whether anything is built any more, and how many errors were made. None of them is more than a
summary of the events so far, and this file says of which: a device is rejected when the last answer
about it, a second declaration apart, was a refusal; building is blocked by the first diagnostic
that leaves the rest of the file in doubt; and each diagnostic is one error.

`Progress.Tracks` is the invariant. Handing a declaration over does one of three things, which
`Progress.declare_cases` lists: nothing at all, a call that is taken, or a call that is refused and
reported at the word that is to blame.
-/

namespace LogicNet

/-! ## Calls and their answers -/

/-- The call that hands over a declaration. -/
def Declaration.call (ids : String → NameId) : Declaration → Call
  | .device d =>
    .device (ids d.name.text) (ids d.kind.text) (d.qualifier.map fun n => (n.value : Int))
  | .connection d =>
    .connection (ids d.outDevice.text) (d.outPin.map fun w => ids w.text) (ids d.inDevice.text)
      (some (ids d.inPin.text))
  | .monitor d => .monitor (ids d.device.text) (d.pin.map fun w => ids w.text)

/-- The devices that a declaration refers to. The device that it declares is none of them. -/
def Declaration.refersTo : Declaration → List Word
  | .device _ => []
  | .connection d => [d.outDevice, d.inDevice]
  | .monitor d => [d.device]

/-- Whether a declaration refers to no rejected device. -/
def Declaration.isFree (ids : String → NameId) (rejected : NameId → Bool) (d : Declaration) :
    Bool :=
  d.refersTo.all fun w => !rejected (ids w.text)

/-- The symbol that is to blame when a declaration is refused. -/
inductive Declaration.Blames : Declaration → ErrorKind → Symbol → Prop
  | name {d : DeviceDecl} : Blames (.device d) (.device .devicePresent) d.name.symbol
  | kind {d : DeviceDecl} {e : DeviceError} :
      e = .badDevice ∨ e = .noQualifier → Blames (.device d) (.device e) d.kind.symbol
  | qualifier {d : DeviceDecl} {e : DeviceError} {n : Numeral} :
      e = .qualifierPresent ∨ e = .invalidQualifier → d.qualifier = some n →
      Blames (.device d) (.device e) n.symbol
  /-- A number is blamed that was not written: its type stands in for it. -/
  | unwritten {d : DeviceDecl} {e : DeviceError} :
      e = .qualifierPresent ∨ e = .invalidQualifier → d.qualifier = none →
      Blames (.device d) (.device e) d.kind.symbol
  | outDevice {d : ConnectionDecl} {e : ConnectionError} :
      e = .outputDeviceAbsent ∨ e = .pinAbsent →
      Blames (.connection d) (.connection e) d.outDevice.symbol
  | inDevice {d : ConnectionDecl} {e : ConnectionError} :
      e = .inputDeviceAbsent ∨ e = .outputToOutput →
      Blames (.connection d) (.connection e) d.inDevice.symbol
  | inPin {d : ConnectionDecl} :
      Blames (.connection d) (.connection .inputConnected) d.inPin.symbol
  | outPin {d : ConnectionDecl} {w : Word} :
      d.outPin = some w → Blames (.connection d) (.connection .inputToInput) w.symbol
  /-- No output pin was written: its device stands in for it. -/
  | noOutPin {d : ConnectionDecl} :
      d.outPin = none → Blames (.connection d) (.connection .inputToInput) d.outDevice.symbol
  | monitored {d : MonitorDecl} {e : MonitorError} :
      Blames (.monitor d) (.monitor e) d.device.symbol

/-- The cause of a refusal, if a call was refused. -/
def refusal? {ε : Type} (kind : ε → ErrorKind) : Except ε Unit → Option ErrorKind
  | .ok () => none
  | .error e => some (kind e)

/-- What a builder answers to a call, and the builder afterwards. -/
def NetworkBuilder.answer {β : Type} [NetworkBuilder β] (b : β) : Call → Option ErrorKind × β
  | .device name kind qualifier =>
    (refusal? .device (makeDevice b name kind qualifier).1, (makeDevice b name kind qualifier).2)
  | .connection outDevice outPin inDevice inPin =>
    (refusal? .connection (makeConnection b outDevice outPin inDevice inPin).1,
      (makeConnection b outDevice outPin inDevice inPin).2)
  | .monitor device pin =>
    (refusal? .monitor (makeMonitor b device pin).1, (makeMonitor b device pin).2)

/-- The rejected devices after an answer. Only an answer about a device can change them. -/
def Call.rejectedAfter (rejected : List NameId) : Call → Option ErrorKind → List NameId
  | .device name _ _, none => rejected.filter (· != name)
  | .device name _ _, some kind =>
    if kind = .device .devicePresent then rejected else name :: rejected
  | .connection .., _ | .monitor .., _ => rejected

/-! ## What the events tell -/

namespace Event

/-- The answer about a device, unless it was that the device is there already. -/
def answerAbout? (id : NameId) : Event → Option (Option ErrorKind)
  | .called (.device name _ _) refusal =>
    if name = id ∧ refusal ≠ some (.device .devicePresent) then some refusal else none
  | _ => none

/-- Whether the last answer about a device, a second declaration apart, was a refusal. -/
def isRejected (es : List Event) (id : NameId) : Bool :=
  ((es.filterMap (answerAbout? id)).getLast?.join).isSome

/-- Whether a call was refused. -/
def isRefusal : Event → Bool
  | .called _ (some _) => true
  | _ => false

/-- What is no answer about a device changes nothing about it, and an answer decides. -/
theorem isRejected_concat (es : List Event) (e : Event) (id : NameId) :
    isRejected (es ++ [e]) id =
      ((e.answerAbout? id).map Option.isSome).getD (isRejected es id) := by
  cases h : e.answerAbout? id <;> simp [isRejected, h]

end Event

/-- The rejected devices after an answer are those that the events tell. -/
theorem Call.mem_rejectedAfter {call : Call} {refusal : Option ErrorKind} {rejected : List NameId}
    {id : NameId} :
    id ∈ call.rejectedAfter rejected refusal ↔
      (((Event.called call refusal).answerAbout? id).map Option.isSome).getD
        (decide (id ∈ rejected)) = true := by
  cases call with
  | device name kind qualifier =>
      cases refusal with
      | none =>
          by_cases h : name = id
          · simp [rejectedAfter, Event.answerAbout?, h]
          · simp [rejectedAfter, Event.answerAbout?, h, Ne.symm h]
      | some e =>
          -- that the device is there already is no answer about it
          by_cases he : e = .device .devicePresent
          · simp [rejectedAfter, Event.answerAbout?, he]
          · by_cases h : name = id
            · simp [rejectedAfter, Event.answerAbout?, he, h]
            · simp [rejectedAfter, Event.answerAbout?, he, h, Ne.symm h]
  | connection => simp [rejectedAfter, Event.answerAbout?]
  | monitor => simp [rejectedAfter, Event.answerAbout?]

/-- A device that is refused is reported at the word that is to blame. -/
theorem DeviceDecl.blames_anchor (d : DeviceDecl) (e : DeviceError) :
    Declaration.Blames (.device d) (.device e) (d.anchor e) := by
  cases e with
  | devicePresent => exact .name
  | noQualifier => exact .kind (.inr rfl)
  | badDevice => exact .kind (.inl rfl)
  | invalidQualifier =>
      cases hq : d.qualifier with
      | none => simpa [anchor, hq] using Declaration.Blames.unwritten (.inr rfl) hq
      | some n => simpa [anchor, hq] using Declaration.Blames.qualifier (.inr rfl) hq
  | qualifierPresent =>
      cases hq : d.qualifier with
      | none => simpa [anchor, hq] using Declaration.Blames.unwritten (.inl rfl) hq
      | some n => simpa [anchor, hq] using Declaration.Blames.qualifier (.inl rfl) hq

theorem ConnectionDecl.blames_anchor (d : ConnectionDecl) (e : ConnectionError) :
    Declaration.Blames (.connection d) (.connection e) (d.anchor e) := by
  cases e with
  | outputDeviceAbsent => exact .outDevice (.inl rfl)
  | pinAbsent => exact .outDevice (.inr rfl)
  | inputDeviceAbsent => exact .inDevice (.inl rfl)
  | outputToOutput => exact .inDevice (.inr rfl)
  | inputConnected => exact .inPin
  | inputToInput =>
      cases hp : d.outPin with
      | none => simpa [anchor, hp] using Declaration.Blames.noOutPin hp
      | some w => simpa [anchor, hp] using Declaration.Blames.outPin hp

theorem MonitorDecl.blames_anchor (d : MonitorDecl) (e : MonitorError) :
    Declaration.Blames (.monitor d) (.monitor e) (d.anchor e) := by
  cases e <;> exact .monitored

/-- Where a device is refused, its anchor is to blame. -/
theorem Declaration.Blames.eq_deviceAnchor {d : DeviceDecl} {kind : ErrorKind} {x : Symbol}
    (h : Blames (.device d) kind x) : ∃ e, kind = .device e ∧ x = d.anchor e := by
  cases h with
  | name => exact ⟨_, rfl, rfl⟩
  | kind he => rcases he with rfl | rfl <;> exact ⟨_, rfl, rfl⟩
  | qualifier he hq =>
      rcases he with rfl | rfl <;> exact ⟨_, rfl, by simp [DeviceDecl.anchor, hq]⟩
  | unwritten he hq =>
      rcases he with rfl | rfl <;> exact ⟨_, rfl, by simp [DeviceDecl.anchor, hq]⟩

theorem Declaration.Blames.eq_connectionAnchor {d : ConnectionDecl} {kind : ErrorKind} {x : Symbol}
    (h : Blames (.connection d) kind x) : ∃ e, kind = .connection e ∧ x = d.anchor e := by
  cases h with
  | outDevice he => rcases he with rfl | rfl <;> exact ⟨_, rfl, rfl⟩
  | inDevice he => rcases he with rfl | rfl <;> exact ⟨_, rfl, rfl⟩
  | inPin => exact ⟨_, rfl, rfl⟩
  | outPin hpin => exact ⟨_, rfl, by simp [ConnectionDecl.anchor, hpin]⟩
  | noOutPin hpin => exact ⟨_, rfl, by simp [ConnectionDecl.anchor, hpin]⟩

theorem Declaration.Blames.eq_monitorAnchor {d : MonitorDecl} {kind : ErrorKind} {x : Symbol}
    (h : Blames (.monitor d) kind x) : ∃ e, kind = .monitor e ∧ x = d.anchor e := by
  cases h with
  | @monitored _ e => exact ⟨e, rfl, by cases e <;> rfl⟩

namespace Progress

variable {β : Type}

/-- What building keeps in mind is a summary of the events so far. -/
structure Tracks (p : Progress β) (es : List Event) : Prop where
  rejected : ∀ id, id ∈ p.rejected ↔ Event.isRejected es id = true
  blocked : p.blocked = (Event.diagnostics es).any fun d => d.kind.blocksBuilding
  errors : p.errors = (Event.diagnostics es).length

theorem tracks_start (builder : β) : (start builder).Tracks [] where
  rejected := by simp [start, Event.isRejected]
  blocked := rfl
  errors := rfl

theorem Tracks.note {p : Progress β} {es : List Event} (h : p.Tracks es) (kind : ErrorKind)
    (symbol : Symbol) : (p.note kind).Tracks (es ++ [.reported ⟨kind, symbol⟩]) where
  rejected := by
    intro id
    rw [Event.isRejected_concat]
    exact h.rejected id
  blocked := by
    simp [Progress.note, h.blocked, Event.diagnostics, Event.diagnostic?]
  errors := by
    simp [Progress.note, h.errors, Event.diagnostics, Event.diagnostic?]

theorem Tracks.called {p : Progress β} {es : List Event} (h : p.Tracks es) (b : β) (call : Call)
    (refusal : Option ErrorKind) :
    Tracks { p with builder := b, rejected := call.rejectedAfter p.rejected refusal }
      (es ++ [.called call refusal]) where
  rejected := by
    intro id
    have hold : decide (id ∈ p.rejected) = Event.isRejected es id := by
      rw [Bool.eq_iff_iff, decide_eq_true_iff]
      exact h.rejected id
    rw [Event.isRejected_concat, ← hold]
    exact Call.mem_rejectedAfter
  blocked := by
    simp [h.blocked, Event.diagnostics, Event.diagnostic?]
  errors := by
    simp [h.errors, Event.diagnostics, Event.diagnostic?]

/-- The check for completeness by itself changes nothing. -/
theorem Tracks.checked {p : Progress β} {es : List Event} (h : p.Tracks es) (complete : Bool) :
    p.Tracks (es ++ [.checked complete]) where
  rejected := by
    intro id
    rw [Event.isRejected_concat]
    exact h.rejected id
  blocked := by simp [h.blocked, Event.diagnostics, Event.diagnostic?]
  errors := by simp [h.errors, Event.diagnostics, Event.diagnostic?]

variable [NetworkBuilder β]

/-- Handing a declaration over passes over it, has it taken, or has it refused and reported. -/
theorem declare_cases (p : Progress β) (ids : String → NameId) (d : Declaration) :
    (d.isFree ids (· ∈ p.rejected) = false ∧ p.declare ids d = ([], p)) ∨
    d.isFree ids (· ∈ p.rejected) = true ∧
      ((∃ b, NetworkBuilder.answer p.builder (d.call ids) = (none, b) ∧
          p.declare ids d = ([.called (d.call ids) none],
            { p with builder := b, rejected := (d.call ids).rejectedAfter p.rejected none })) ∨
        ∃ b kind symbol, NetworkBuilder.answer p.builder (d.call ids) = (some kind, b) ∧
          d.Blames kind symbol ∧
          p.declare ids d = ([.called (d.call ids) (some kind), .reported ⟨kind, symbol⟩],
            { p with builder := b, rejected := (d.call ids).rejectedAfter p.rejected kind }.note
              kind)) := by
  cases d with
  | device d =>
      -- a device refers to no other, so it is always handed over
      refine .inr ⟨rfl, ?_⟩
      simp only [declare, device, Declaration.call, NetworkBuilder.answer]
      generalize NetworkBuilder.makeDevice p.builder (ids d.name.text) (ids d.kind.text)
        (d.qualifier.map fun n => (n.value : Int)) = reply
      obtain ⟨result, b⟩ := reply
      cases result with
      | ok => exact .inl ⟨b, rfl, rfl⟩
      | error e =>
          -- a second declaration leaves the rejected devices as they are
          refine .inr ⟨b, .device e, d.anchor e, rfl, d.blames_anchor e, ?_⟩
          simp [Call.rejectedAfter]
  | connection d =>
      simp only [declare, connection, Declaration.call, NetworkBuilder.answer]
      by_cases hr : ids d.outDevice.text ∈ p.rejected ∨ ids d.inDevice.text ∈ p.rejected
      · refine .inl ⟨?_, if_pos hr⟩
        rcases hr with hr | hr <;> simp [Declaration.isFree, Declaration.refersTo, hr]
      · refine .inr ⟨?_, ?_⟩
        · rw [not_or] at hr
          simp [Declaration.isFree, Declaration.refersTo, hr]
        · rw [if_neg hr]
          generalize NetworkBuilder.makeConnection p.builder (ids d.outDevice.text)
            (d.outPin.map fun w => ids w.text) (ids d.inDevice.text) (some (ids d.inPin.text)) =
              reply
          obtain ⟨result, b⟩ := reply
          cases result with
          | ok => exact .inl ⟨b, rfl, rfl⟩
          | error e => exact .inr ⟨b, .connection e, d.anchor e, rfl, d.blames_anchor e, rfl⟩
  | monitor d =>
      simp only [declare, monitor, Declaration.call, NetworkBuilder.answer]
      by_cases hr : ids d.device.text ∈ p.rejected
      · refine .inl ⟨?_, if_pos hr⟩
        simp [Declaration.isFree, Declaration.refersTo, hr]
      · refine .inr ⟨?_, ?_⟩
        · simp [Declaration.isFree, Declaration.refersTo, hr]
        · rw [if_neg hr]
          generalize NetworkBuilder.makeMonitor p.builder (ids d.device.text)
            (d.pin.map fun w => ids w.text) = reply
          obtain ⟨result, b⟩ := reply
          cases result with
          | ok => exact .inl ⟨b, rfl, rfl⟩
          | error e => exact .inr ⟨b, .monitor e, d.anchor e, rfl, d.blames_anchor e, rfl⟩

/-! ## The invariant -/

theorem tracks_declare {p : Progress β} {es : List Event} (h : p.Tracks es)
    (ids : String → NameId) (d : Declaration) :
    (p.declare ids d).2.Tracks (es ++ (p.declare ids d).1) := by
  rcases p.declare_cases ids d with ⟨-, hd⟩ | ⟨-, ⟨b, -, hd⟩ | ⟨b, kind, symbol, -, -, hd⟩⟩
  · rw [hd, List.append_nil]
    exact h
  · rw [hd]
    exact h.called b _ none
  · rw [hd, List.append_cons]
    exact (h.called b _ (some kind)).note kind symbol

/-- **Preserved by every step.** -/
theorem tracks_step {p : Progress β} {es : List Event} (h : p.Tracks es)
    (ids : String → NameId) (item : Item) :
    (p.step ids item).2.Tracks (es ++ (p.step ids item).1) := by
  cases item with
  | opened b => simpa [step] using h
  | declared d =>
      simp only [step]
      split
      · simpa using h
      · exact tracks_declare h ids d
  | closed b last =>
      -- the check makes at most one diagnostic, and no call
      simp only [step, check]
      split
      · split
        · exact h.checked true
        · rw [List.append_cons]
          exact (h.checked false).note _ _
      · simpa using h
  | fault error symbol => exact h.note (.syntactic error) symbol

/-- What building keeps in mind is a summary of the events after every run. -/
theorem tracks_steps {p : Progress β} {es : List Event} (h : p.Tracks es)
    (ids : String → NameId) (items : List Item) :
    (p.steps ids items).2.Tracks (es ++ (p.steps ids items).1) := by
  induction items generalizing p es with
  | nil => simpa using h
  | cons item items ih =>
      have hnext := ih (tracks_step h ids item)
      rwa [List.append_assoc] at hnext

end Progress

end LogicNet
