import LogicNet.Proofs.Acceptance
import LogicNet.Proofs.Discipline
import LogicNet.Proofs.Representation

/-!
# Refusals last

A circuit only grows. What it has taken it refuses when it is asked again, a device because its name
is there, a connection because its input is driven, and a monitor because its signal is watched.
What it has refused it goes on refusing. For a device that is so whatever else is asked of the
circuit, though perhaps for another reason: a name that was declared with an unknown type may be
declared again. For a connection or a monitor it is so, for the same reason, as long as no device is
added (`Circuit.Later`).

So after some calls, devices first, a circuit refuses each of them (`Circuit.refused_of_mem`), and
to make them all again changes nothing.
-/

namespace LogicNet

/-- Why a call is refused that was taken before. -/
def Call.repetition : Call → ErrorKind
  | .device .. => .device .devicePresent
  | .connection .. => .connection .inputConnected
  | .monitor .. => .monitor .monitorPresent

/-- Devices first: behind a call that asks for none, none is asked for. -/
def DevicesFirst (calls : List Call) : Prop :=
  calls.Pairwise fun x y => y.stage = .devices → x.stage = .devices

/-- Behind the first call no device is added, unless it asks for one itself. -/
theorem DevicesFirst.stage_head {call : Call} {calls : List Call}
    (h : DevicesFirst (call :: calls)) :
    call.stage = .devices ∨ ∀ other ∈ calls, other.stage ≠ .devices := by
  by_cases hstage : call.stage = .devices
  · exact .inl hstage
  · exact .inr fun other hother hdevices =>
      hstage ((List.pairwise_cons.mp h).1 other hother hdevices)

theorem QualifierRule.check_ne_devicePresent (rule : QualifierRule) {qualifier : Option Int} :
    rule.check qualifier ≠ .error .devicePresent := by
  intro h
  cases rule with
  | forbidden => cases qualifier <;> cases h
  | required least greatest =>
      cases qualifier with
      | none => cases h
      | some n =>
          rw [check] at h
          split at h <;> cases h

namespace Device

variable {d e : Device} {pin p : NameId} {source : Signal}

theorem SamePins.hasInput_eq (h : d.SamePins e) (pin : Option NameId) :
    d.hasInput pin = e.hasInput pin := by
  cases pin with
  | none => rfl
  | some p =>
      have hany := congrArg (List.any · (· == p)) h.pins
      simpa only [hasInput, List.any_map, Function.comp_def] using hany

theorem SamePins.trans {x : Device} (h : d.SamePins e) (h' : e.SamePins x) : d.SamePins x :=
  ⟨h.id.trans h'.id, h.kind.trans h'.kind, h.qualifier.trans h'.qualifier, h.pins.trans h'.pins,
    h.outputs.trans h'.outputs⟩

theorem SamePins.role_eq (h : d.SamePins e) (pin : Option NameId) : d.role pin = e.role pin := by
  have hinput : (fun p => d.hasInput (some p)) = fun p => e.hasInput (some p) :=
    funext fun p => h.hasInput_eq (some p)
  rw [role, role, hinput, hasOutput, hasOutput, h.outputs]

theorem source?_drive_eq (d : Device) (pin p : NameId) (source : Signal) :
    (d.drive pin source).source? p =
      (d.inputs.find? (·.pin == p)).bind fun i =>
        if i.pin = pin then some source else i.source := by
  have hpin : ∀ i : Input,
      (if i.pin = pin then (⟨pin, some source⟩ : Input) else i).pin = i.pin := by
    intro i
    split
    · next h => exact h.symm
    · rfl
  simp only [source?, drive, List.find?_map, Function.comp_def, hpin]
  cases d.inputs.find? (·.pin == p) with
  | none => rfl
  | some i =>
      simp only [Option.map_some, Option.bind_some]
      split <;> rfl

/-- An input that is driven now has a source. -/
theorem source?_drive (hpin : d.hasInput (some pin) = true) (source : Signal) :
    (d.drive pin source).source? pin = some source := by
  obtain ⟨i, hi⟩ := Option.isSome_iff_exists.mp (List.find?_isSome.mpr (List.any_eq_true.mp hpin))
  have hip : i.pin = pin := by simpa using List.find?_some hi
  rw [source?_drive_eq, hi, Option.bind_some, if_pos hip]

/-- An input that has a source keeps having one. -/
theorem isSome_source?_drive (h : (d.source? p).isSome = true) (pin : NameId) (source : Signal) :
    ((d.drive pin source).source? p).isSome = true := by
  rw [source?_drive_eq]
  rw [source?] at h
  cases hi : d.inputs.find? (·.pin == p) with
  | none => simp [hi] at h
  | some i =>
      rw [hi] at h
      rw [Option.bind_some]
      split
      · rfl
      · exact h

theorem isDriven_drive (h : d.isDriven = true) (pin : NameId) (source : Signal) :
    (d.drive pin source).isDriven = true := by
  simp only [isDriven, drive, List.all_map, List.all_eq_true] at h ⊢
  intro i hi
  simp only [Function.comp_apply]
  split
  · rfl
  · exact h i hi

end Device

namespace Circuit

variable {c next : Circuit} {call other : Call} {kind : ErrorKind}

/-- A circuit refuses a call, and stays as it is. -/
def Refuses (c : Circuit) (call : Call) (kind : ErrorKind) : Prop :=
  NetworkBuilder.answer c call = (some kind, c)

theorem refusal?_replyOf_error_iff {ε : Type} {cause : ε → ErrorKind} {result : Except ε Circuit} :
    (refusal? cause (replyOf c result).1, (replyOf c result).2) = (some kind, c) ↔
      ∃ e, result = .error e ∧ cause e = kind := by
  cases result <;> simp [refusal?, replyOf]

theorem refuses_device_iff {id type : NameId} {qualifier : Option Int} :
    c.Refuses (.device id type qualifier) kind ↔
      ∃ e, c.addDevice id type qualifier = .error e ∧ .device e = kind :=
  refusal?_replyOf_error_iff

theorem refuses_connection_iff {first second : NameId} {firstPin secondPin : Option NameId} :
    c.Refuses (.connection first firstPin second secondPin) kind ↔
      ∃ e, c.connect first firstPin second secondPin = .error e ∧ .connection e = kind :=
  refusal?_replyOf_error_iff

theorem refuses_monitor_iff {id : NameId} {pin : Option NameId} :
    c.Refuses (.monitor id pin) kind ↔ ∃ e, c.addMonitor id pin = .error e ∧ .monitor e = kind :=
  refusal?_replyOf_error_iff

/-- A call is taken, or the circuit refuses it. -/
theorem taken_or_refuses (c : Circuit) (call : Call) :
    (∃ next, NetworkBuilder.answer c call = (none, next)) ∨ ∃ kind, c.Refuses call kind := by
  have hreply : ∀ {ε : Type} (cause : ε → ErrorKind) (result : Except ε Circuit),
      (∃ next, (refusal? cause (replyOf c result).1, (replyOf c result).2) = (none, next)) ∨
        ∃ kind, (refusal? cause (replyOf c result).1, (replyOf c result).2) = (some kind, c) := by
    intro ε cause result
    cases result with
    | ok next => exact .inl ⟨next, rfl⟩
    | error e => exact .inr ⟨cause e, rfl⟩
  cases call <;> exact hreply _ _

/-! ## Devices -/

/-- A name is refused as present exactly if it is in the index. -/
theorem addDevice_eq_devicePresent_iff (id type : NameId) (qualifier : Option Int) :
    c.addDevice id type qualifier = .error .devicePresent ↔ (c.index.lookup id).isSome = true := by
  rw [addDevice]
  by_cases hold : (c.index.lookup id).isSome = true
  · simp [hold]
  · rw [if_neg hold]
    refine ⟨fun h => ?_, fun h => absurd h hold⟩
    cases hkind : c.catalogue.kind? type with
    | none => simp [hkind] at h
    | some k =>
        -- what is wrong with a qualifier is another cause
        rw [hkind] at h
        cases hcheck : k.qualifierRule.check qualifier with
        | ok u => simp [Catalogue.device, hcheck, bind, Except.bind, pure, Except.pure] at h
        | error e =>
            have heq : e = .devicePresent := by
              simpa [Catalogue.device, hcheck, bind, Except.bind] using h
            exact absurd (heq ▸ hcheck) k.qualifierRule.check_ne_devicePresent

/-- Whatever is asked of a circuit, its names stay in the index, and its catalogue stays. -/
theorem index_answer (c : Circuit) (call : Call) :
    (∀ id, (c.index.lookup id).isSome = true →
      ((NetworkBuilder.answer c call).2.index.lookup id).isSome = true) ∧
    (NetworkBuilder.answer c call).2.catalogue = c.catalogue := by
  rcases c.answer_cases call with hsame | ⟨id, type, qualifier, hadd⟩ | ⟨i, o, hwires⟩ | ⟨q, hadd⟩
  · rw [hsame]
    exact ⟨fun _ h => h, rfl⟩
  · obtain ⟨-, k, -, d, -, hnext⟩ := addDevice_eq_ok_iff.mp hadd
    rw [← hnext]
    refine ⟨fun id' h => ?_, rfl⟩
    rw [List.lookup_append]
    simp [h]
  · obtain ⟨d, e, pin, -, -, -, -, hdrive⟩ := hwires
    obtain ⟨-, hnext⟩ := drive_eq_ok_iff.mp hdrive
    rw [← hnext]
    exact ⟨fun _ h => h, rfl⟩
  · obtain ⟨d, -, -, -, hnext⟩ := addMonitor_eq_ok_iff.mp hadd
    rw [← hnext]
    exact ⟨fun _ h => h, rfl⟩

/-- A device that is refused is refused ever after. -/
theorem refuses_device_answer {id type : NameId} {qualifier : Option Int}
    (h : ∃ kind, c.Refuses (.device id type qualifier) kind) (other : Call) :
    ∃ kind, (NetworkBuilder.answer c other).2.Refuses (.device id type qualifier) kind := by
  obtain ⟨kept, hcatalogue⟩ := c.index_answer other
  rcases taken_or_refuses (NetworkBuilder.answer c other).2 (.device id type qualifier) with
    ⟨next, htaken⟩ | hrefused
  · -- what is taken then would have been taken before
    have hadd := refusal?_replyOf_iff.mp htaken
    obtain ⟨hnew, k, hk, d, hd, -⟩ := addDevice_eq_ok_iff.mp hadd
    rw [hcatalogue] at hk hd
    have hbefore := addDevice_eq_ok_iff.mpr ⟨fun hold => hnew (kept id hold), k, hk, d, hd, rfl⟩
    obtain ⟨kind, hkind⟩ := h
    obtain ⟨e, he, -⟩ := refuses_device_iff.mp hkind
    rw [hbefore] at he
    cases he
  · exact hrefused

theorem refuses_devicePresent_iff {id type : NameId} {qualifier : Option Int} :
    c.Refuses (.device id type qualifier) (.device .devicePresent) ↔
      (c.index.lookup id).isSome = true := by
  rw [refuses_device_iff, ← addDevice_eq_devicePresent_iff id type qualifier]
  refine ⟨?_, fun h => ⟨_, h, rfl⟩⟩
  intro h
  obtain ⟨e, he, hkind⟩ := h
  cases hkind
  exact he

/-! ## Connections and monitors -/

/-- A circuit to which no device was added since. -/
structure Later (c next : Circuit) : Prop where
  index : next.index = c.index
  /-- Some more inputs are driven, and nothing else has changed about the devices. -/
  devices : ∃ f : Device → Device, next.devices = c.devices.map f ∧ ∀ d, (f d).SamePins d ∧
    (∀ p, (d.source? p).isSome = true → ((f d).source? p).isSome = true) ∧
    (d.isDriven = true → (f d).isDriven = true)
  monitors : c.monitors ⊆ next.monitors

theorem Later.refl (c : Circuit) : c.Later c where
  index := rfl
  devices := ⟨id, (List.map_id _).symm,
    fun d => ⟨.refl d, fun _ h => h, fun h => h⟩⟩
  monitors := List.Subset.refl _

theorem Later.trans {last : Circuit} (h : c.Later next) (h' : next.Later last) : c.Later last := by
  obtain ⟨f, hf, hsame⟩ := h.devices
  obtain ⟨g, hg, hsame'⟩ := h'.devices
  refine ⟨h'.index.trans h.index, ⟨g ∘ f, ?_, fun d => ⟨?_, ?_, ?_⟩⟩,
    List.Subset.trans h.monitors h'.monitors⟩
  · rw [hg, hf, List.map_map]
  · exact (hsame' (f d)).1.trans (hsame d).1
  · exact fun p hp => (hsame' (f d)).2.1 p ((hsame d).2.1 p hp)
  · exact fun hd => (hsame' (f d)).2.2 ((hsame d).2.2 hd)

theorem Later.isConnected (h : c.Later next) (hc : c.isConnected = true) :
    next.isConnected = true := by
  obtain ⟨f, hf, hsame⟩ := h.devices
  rw [Circuit.isConnected, hf, List.all_map, List.all_eq_true]
  intro d hd
  exact (hsame d).2.2 (List.all_eq_true.mp hc d hd)

/-- Where all devices are changed alike, so is the device of a name. -/
theorem device?_map {f : Device → Device} (hdevices : next.devices = c.devices.map f)
    (hindex : next.index = c.index) (id : NameId) : next.device? id = (c.device? id).map f := by
  rw [device?, device?, hindex, hdevices]
  cases c.index.lookup id with
  | none => rfl
  | some i => exact List.getElem?_map

/-- A device that is looked up is the same, with more inputs driven. -/
theorem Later.exists_device? (h : c.Later next) :
    ∃ f : Device → Device, (∀ id, next.device? id = (c.device? id).map f) ∧
      ∀ d, (∀ pin, (f d).role pin = d.role pin) ∧ (∀ pin, (f d).hasOutput pin = d.hasOutput pin) ∧
        ∀ p, (d.source? p).isSome = true → ((f d).source? p).isSome = true := by
  obtain ⟨f, hf, hsame⟩ := h.devices
  refine ⟨f, device?_map hf h.index, fun d => ⟨(hsame d).1.role_eq, fun pin => ?_, (hsame d).2.1⟩⟩
  rw [Device.hasOutput, Device.hasOutput, (hsame d).1.outputs]

theorem drive_eq_error_iff {d : Device} {pin : NameId} {source : Signal} {e : ConnectionError} :
    c.drive d pin source = .error e ↔ e = .inputConnected ∧ (d.source? pin).isSome = true := by
  unfold drive
  cases d.source? pin <;> simp [eq_comm]

/-- A connection that is refused is refused later, for the same cause. -/
theorem Later.connect_eq_error (h : c.Later next) {first second : NameId}
    {firstPin secondPin : Option NameId} {e : ConnectionError}
    (he : c.connect first firstPin second secondPin = .error e) :
    next.connect first firstPin second secondPin = .error e := by
  obtain ⟨f, hdevice, hsame⟩ := h.exists_device?
  simp only [connect, hdevice] at he ⊢
  cases hd : c.device? first with
  | none =>
      rw [hd] at he
      exact he
  | some d =>
      cases hd' : c.device? second with
      | none =>
          rw [hd, hd'] at he
          exact he
      | some d' =>
          simp only [hd, hd', Option.map_some, (hsame _).1] at he ⊢
          -- the roles are as they were, so all that counts is whether the input was driven
          cases hr : d.role firstPin <;> cases hr' : d'.role secondPin <;>
            simp only [hr, hr'] at he ⊢ <;> try exact he
          · obtain ⟨rfl, hsource⟩ := drive_eq_error_iff.mp he
            exact drive_eq_error_iff.mpr ⟨rfl, (hsame _).2.2 _ hsource⟩
          · obtain ⟨rfl, hsource⟩ := drive_eq_error_iff.mp he
            exact drive_eq_error_iff.mpr ⟨rfl, (hsame _).2.2 _ hsource⟩

/-- A monitor that is refused is refused later, for the same cause. -/
theorem Later.addMonitor_eq_error (h : c.Later next) {id : NameId} {pin : Option NameId}
    {e : MonitorError} (he : c.addMonitor id pin = .error e) :
    next.addMonitor id pin = .error e := by
  obtain ⟨f, hdevice, hsame⟩ := h.exists_device?
  simp only [addMonitor, hdevice] at he ⊢
  cases hd : c.device? id with
  | none =>
      rw [hd] at he
      exact he
  | some d =>
      simp only [hd, Option.map_some, (hsame d).2.1] at he ⊢
      by_cases hout : (!d.hasOutput pin) = true
      · rw [if_pos hout] at he ⊢
        exact he
      · rw [if_neg hout] at he ⊢
        by_cases hwatched : (⟨id, pin⟩ : Signal) ∈ c.monitors
        · rw [if_pos hwatched] at he
          rw [if_pos (h.monitors hwatched)]
          exact he
        · rw [if_neg hwatched] at he
          cases he

theorem Later.refuses (h : c.Later next) (hrefused : c.Refuses call kind)
    (hcall : call.stage ≠ .devices) : next.Refuses call kind := by
  cases call with
  | device id type qualifier => exact absurd rfl hcall
  | connection first firstPin second secondPin =>
      obtain ⟨e, he, hkind⟩ := refuses_connection_iff.mp hrefused
      exact refuses_connection_iff.mpr ⟨e, h.connect_eq_error he, hkind⟩
  | monitor id pin =>
      obtain ⟨e, he, hkind⟩ := refuses_monitor_iff.mp hrefused
      exact refuses_monitor_iff.mpr ⟨e, h.addMonitor_eq_error he, hkind⟩

theorem later_wires {i o : Signal} (h : c.Wires i o next) : c.Later next := by
  obtain ⟨d, e, pin, -, -, -, -, hdrive⟩ := h
  obtain ⟨-, rfl⟩ := drive_eq_ok_iff.mp hdrive
  refine ⟨rfl, ⟨_, rfl, fun x => ?_⟩, List.Subset.refl _⟩
  split
  · exact ⟨Device.samePins_drive, fun p hp => Device.isSome_source?_drive hp pin o,
      fun hdriven => Device.isDriven_drive hdriven pin o⟩
  · exact ⟨.refl x, fun _ hp => hp, fun hdriven => hdriven⟩

/-- Only a call that asks for a device adds one. -/
theorem later_answer (c : Circuit) (hcall : call.stage ≠ .devices) :
    c.Later (NetworkBuilder.answer c call).2 := by
  rcases c.taken_or_refuses call with ⟨next, htaken⟩ | ⟨kind, hrefused⟩
  · rw [htaken]
    cases call with
    | device id type qualifier => exact absurd rfl hcall
    | connection first firstPin second secondPin =>
        have hconnect := refusal?_replyOf_iff.mp htaken
        rcases connect_eq_ok_iff (p := ⟨first, firstPin⟩) (q := ⟨second, secondPin⟩).mp hconnect
          with hwires | hwires
        · exact later_wires hwires
        · exact later_wires hwires
    | monitor id pin =>
        have hadd := refusal?_replyOf_iff.mp htaken
        obtain ⟨d, -, -, -, rfl⟩ := addMonitor_eq_ok_iff (q := ⟨id, pin⟩).mp hadd
        exact ⟨rfl, (Later.refl c).devices, List.subset_append_left _ _⟩
  · rw [hrefused]
    exact .refl c

/-! ## What was taken is refused -/

/-- The input that was driven is found again, and nothing more can drive it. -/
theorem Wires.again {i o : Signal} (h : c.Wires i o next) :
    ∃ d e pin, next.device? i.device = some d ∧ d.role i.pin = .input pin ∧
      next.device? o.device = some e ∧ e.role o.pin = .output ∧
      next.drive d pin o = .error .inputConnected := by
  obtain ⟨d, e, pin, hd, hin, he, hout, hdrive⟩ := h
  obtain ⟨-, rfl⟩ := drive_eq_ok_iff.mp hdrive
  -- one device is driven, and all keep their pins
  let f : Device → Device := fun x => if x.id = d.id then x.drive pin o else x
  have hf : ∀ x, (f x).SamePins x := fun x => Device.samePins_ite_drive d x pin o
  have hfd : f d = d.drive pin o := if_pos rfl
  have hdevice : ∀ id, device? { c with
      devices := c.devices.map f
      connectionCount := c.connectionCount + 1 } id = (c.device? id).map f :=
    device?_map rfl rfl
  obtain ⟨hpin, hhas⟩ := Device.role_eq_input_iff.mp hin
  rw [hpin] at hhas
  refine ⟨f d, f e, pin, by rw [hdevice, hd]; rfl, ((hf d).role_eq _).trans hin,
    by rw [hdevice, he]; rfl, ((hf e).role_eq _).trans hout, drive_eq_error_iff.mpr ⟨rfl, ?_⟩⟩
  rw [hfd, Device.source?_drive hhas]
  rfl

/-- A connection that was made is refused, whichever of its ends is the input. -/
theorem connect_again {p q : Signal} (h : c.connect p.device p.pin q.device q.pin = .ok next) :
    next.connect p.device p.pin q.device q.pin = .error .inputConnected := by
  rcases connect_eq_ok_iff.mp h with hwires | hwires
  · obtain ⟨d, e, pin, hd, hin, he, hout, hdrive⟩ := hwires.again
    simp only [connect, hd, he, hin, hout, hdrive]
  · obtain ⟨d, e, pin, hd, hin, he, hout, hdrive⟩ := hwires.again
    simp only [connect, hd, he, hin, hout, hdrive]

/-- **What was taken is refused as a repetition.** -/
theorem refuses_repetition (h : NetworkBuilder.answer c call = (none, next)) :
    next.Refuses call call.repetition := by
  cases call with
  | device id type qualifier =>
      have hadd := refusal?_replyOf_iff.mp h
      obtain ⟨-, k, -, d, -, rfl⟩ := addDevice_eq_ok_iff.mp hadd
      refine refuses_devicePresent_iff.mpr ?_
      simp [List.lookup_append]
  | connection first firstPin second secondPin =>
      have hconnect := refusal?_replyOf_iff.mp h
      exact refuses_connection_iff.mpr
        ⟨_, connect_again (p := ⟨first, firstPin⟩) (q := ⟨second, secondPin⟩) hconnect, rfl⟩
  | monitor id pin =>
      have hadd := refusal?_replyOf_iff.mp h
      obtain ⟨d, hd, hout, -, rfl⟩ := addMonitor_eq_ok_iff (q := ⟨id, pin⟩).mp hadd
      refine refuses_monitor_iff.mpr ⟨.monitorPresent, ?_, rfl⟩
      have hd' : device? { c with monitors := c.monitors ++ [⟨id, pin⟩] } id = some d := hd
      simp only [addMonitor, hd', hout]
      simp

/-! ## What is refused goes on being refused -/

/-- A call that is refused is refused after another that adds no device, or if it asks for one. -/
theorem refused_answer (h : ∃ kind, c.Refuses call kind)
    (hother : call.stage = .devices ∨ other.stage ≠ .devices) :
    ∃ kind, (NetworkBuilder.answer c other).2.Refuses call kind := by
  by_cases hstage : call.stage = .devices
  · cases call with
    | device id type qualifier => exact refuses_device_answer h other
    | connection => cases hstage
    | monitor => cases hstage
  · obtain ⟨kind, hkind⟩ := h
    exact ⟨kind, (c.later_answer (hother.resolve_left hstage)).refuses hkind hstage⟩

/-- A repetition stays one. -/
theorem repetition_answer (h : c.Refuses call call.repetition)
    (hother : call.stage = .devices ∨ other.stage ≠ .devices) :
    (NetworkBuilder.answer c other).2.Refuses call call.repetition := by
  by_cases hstage : call.stage = .devices
  · cases call with
    | device id type qualifier =>
        refine refuses_devicePresent_iff.mpr ?_
        exact (c.index_answer other).1 id (refuses_devicePresent_iff.mp h)
    | connection => cases hstage
    | monitor => cases hstage
  · exact (c.later_answer (hother.resolve_left hstage)).refuses h hstage

/-! ## After many calls -/

/-- What each call keeps, all of them do. -/
theorem after_induction {P : Circuit → Prop} {calls : List Call} (h : P c)
    (hstep : ∀ next, ∀ call ∈ calls, P next → P (NetworkBuilder.answer next call).2) :
    P (c.after calls) :=
  List.foldlRecOn calls _ h fun next hnext call hcall => hstep next call hcall hnext

theorem later_after (c : Circuit) {calls : List Call} (h : ∀ call ∈ calls, call.stage ≠ .devices) :
    c.Later (c.after calls) :=
  after_induction (.refl c) fun next call hcall hnext =>
    hnext.trans (next.later_answer (h call hcall))

/-- A call that is refused is refused after others, if they add no device or it asks for one. -/
theorem refused_after {calls : List Call} (h : ∃ kind, c.Refuses call kind)
    (hcalls : call.stage = .devices ∨ ∀ other ∈ calls, other.stage ≠ .devices) :
    ∃ kind, (c.after calls).Refuses call kind :=
  after_induction (P := fun next => ∃ kind, next.Refuses call kind) h
    fun _ other hother hrefused => refused_answer hrefused (hcalls.imp_right (· other hother))

/-- A call that is refused as a repetition goes on being so. -/
theorem repetition_after {calls : List Call} (h : c.Refuses call call.repetition)
    (hcalls : call.stage = .devices ∨ ∀ other ∈ calls, other.stage ≠ .devices) :
    (c.after calls).Refuses call call.repetition :=
  after_induction (P := (·.Refuses call call.repetition)) h
    fun _ other hother hrefused => repetition_answer hrefused (hcalls.imp_right (· other hother))

/-- **After calls, devices first, a circuit refuses each of them.** -/
theorem refused_of_mem {calls : List Call} (h : DevicesFirst calls) (hcall : call ∈ calls) :
    ∃ kind, (c.after calls).Refuses call kind := by
  induction calls generalizing c with
  | nil => exact absurd hcall List.not_mem_nil
  | cons first calls ih =>
      rcases List.mem_cons.mp hcall with rfl | hcall
      · have hrefused : ∃ kind, (NetworkBuilder.answer c call).2.Refuses call kind := by
          rcases c.taken_or_refuses call with ⟨next, htaken⟩ | ⟨kind, hrefused⟩
          · rw [htaken]
            exact ⟨_, refuses_repetition htaken⟩
          · rw [hrefused]
            exact ⟨kind, hrefused⟩
        exact refused_after (c := (NetworkBuilder.answer c call).2) hrefused h.stage_head
      · exact ih (List.pairwise_cons.mp h).2 hcall

/-- Calls that a circuit refuses change nothing. -/
theorem after_eq_self {calls : List Call} (h : ∀ call ∈ calls, ∃ kind, c.Refuses call kind) :
    c.after calls = c := by
  refine after_induction (P := (· = c)) rfl ?_
  rintro _ call hcall rfl
  obtain ⟨kind, hkind⟩ := h call hcall
  exact congrArg Prod.snd hkind

/-- Where every device is refused, the same names stay in the index. -/
theorem index_after {calls : List Call}
    (h : ∀ call ∈ calls, call.stage = .devices → ∃ kind, c.Refuses call kind) :
    (c.after calls).index = c.index := by
  -- the devices go on being refused while the calls are made
  have hkept : (c.after calls).index = c.index ∧
      ∀ call ∈ calls, call.stage = .devices → ∃ kind, (c.after calls).Refuses call kind := by
    refine after_induction (P := fun next => next.index = c.index ∧
      ∀ call ∈ calls, call.stage = .devices → ∃ kind, next.Refuses call kind) ⟨rfl, h⟩ ?_
    rintro next call hcall ⟨hindex, hrefused⟩
    refine ⟨?_, fun other hother hstage =>
      refused_answer (hrefused other hother hstage) (.inl hstage)⟩
    by_cases hstage : call.stage = .devices
    · obtain ⟨kind, hkind⟩ := hrefused call hcall hstage
      rw [hkind]
      exact hindex
    · exact (next.later_answer hstage).index.trans hindex
  exact hkept.1

open NetworkBuilder

variable {ids : String → NameId} {ds : List Declaration} {last : Circuit}

theorem eq_after_of_takeAll? (h : takeAll? ids c ds = some last) :
    last = c.after (ds.map (·.call ids)) := by
  induction ds generalizing c with
  | nil => exact (Option.some.inj h).symm
  | cons d ds ih =>
      obtain ⟨next, htaken, hrest⟩ := takeAll?_cons_eq_some_iff.mp h
      rw [List.map_cons, after, List.foldl_cons, htaken]
      exact ih hrest

/-- **What was taken, devices first, is refused as a repetition**, each declaration of it. -/
theorem repetition_of_takeAll? (h : takeAll? ids c ds = some last)
    (hds : DevicesFirst (ds.map (·.call ids))) :
    ∀ d ∈ ds, last.Refuses (d.call ids) (d.call ids).repetition := by
  induction ds generalizing c with
  | nil => exact fun d hd => absurd hd List.not_mem_nil
  | cons d ds ih =>
      obtain ⟨next, htaken, hrest⟩ := takeAll?_cons_eq_some_iff.mp h
      rw [List.map_cons] at hds
      intro x hx
      rcases List.mem_cons.mp hx with rfl | hx
      · rw [eq_after_of_takeAll? hrest]
        exact repetition_after (refuses_repetition htaken) hds.stage_head
      · exact ih hrest (List.pairwise_cons.mp hds).2 x hx

end Circuit

end LogicNet
