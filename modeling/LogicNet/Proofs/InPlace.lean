import LogicNet.Proofs.Growth

/-!
# A circuit that is changed in place

To take a declaration, a circuit is made anew, and where it is refused there is no other circuit to
go on with. A builder that keeps one circuit and changes it piece by piece is not safe from that.
It looks up places in the index, looks at the devices there, finds an input and then writes into it
and counts the connection, and it might notice what is wrong only when something was written. This
file says how such a builder goes about each call, and shows that it comes to the same
(`Circuit.perform_eq`). It looks for no device where there is none, and it has changed nothing when
it refuses.

The two differ most where pins are joined. `Circuit.connect` asks what each pin is to its device.
Here the first pin is asked whether it is an input, and only if it is not whether it is an output,
and the second pin is asked for the opposite first. That no pin is both makes them agree.
-/

namespace LogicNet

/-- To change the one element of a name is to change what stands in its place. -/
theorem map_ite_eq_modify {α β : Type} [DecidableEq β] {name : α → β} {xs : List α}
    (h : (xs.map name).Nodup) {n : Nat} {a : α} (ha : xs[n]? = some a) {f g : α → α}
    (hfg : f a = g a) :
    xs.map (fun x => if name x = name a then f x else x) = xs.modify n g := by
  obtain ⟨hn, -⟩ := List.getElem?_eq_some_iff.mp ha
  apply List.ext_getElem?
  intro m
  rw [List.getElem?_map, List.getElem?_modify, Option.map_eq_map]
  refine Option.map_congr fun x hx => ?_
  have hname : n = m ↔ name x = name a := by
    rw [← List.getElem?_inj (by rwa [List.length_map]) h, List.getElem?_map, List.getElem?_map, ha,
      Option.mem_def.mp hx, Option.map_some, Option.map_some, Option.some.injEq, eq_comm]
  by_cases hm : n = m
  · subst hm
    obtain rfl := Option.some.inj (ha.symm.trans hx)
    simp only [if_true, hfg]
  · rw [if_neg hm, if_neg fun heq => hm (hname.mpr heq)]

/-- An input that is there is found in its place. -/
theorem Device.exists_place_input {d : Device} {pin : NameId}
    (hpin : d.hasInput (some pin) = true) :
    ∃ k, d.inputs.findIdx? (fun i => some i.pin == some pin) = some k ∧
      d.inputs[k]? = some ⟨pin, d.source? pin⟩ := by
  obtain ⟨i, hfind⟩ := Option.isSome_iff_exists.mp
    (List.find?_isSome.mpr (List.any_eq_true.mp hpin))
  obtain ⟨hi, k, hk, hki, hbefore⟩ := List.find?_eq_some_iff_getElem.mp hfind
  obtain rfl := eq_of_beq hi
  refine ⟨k, List.findIdx?_eq_some_iff_getElem.mpr ⟨hk, by simp [hki], fun j hj => ?_⟩, ?_⟩
  · simpa using hbefore j hj
  · rw [List.getElem?_eq_getElem hk, hki, source?, hfind]
    rfl

/-- A pin is an input, an output or neither. -/
theorem Device.Prescribed.role_cases {t : NameTable} {d : Device} (h : d.Prescribed t)
    (pin : Option NameId) :
    (∃ p, pin = some p ∧ d.role pin = .input p ∧ d.hasInput pin = true ∧
        d.hasOutput pin = false) ∨
      d.role pin = .output ∧ d.hasInput pin = false ∧ d.hasOutput pin = true ∨
      d.role pin = .absent ∧ d.hasInput pin = false ∧ d.hasOutput pin = false := by
  cases hrole : d.role pin with
  | input p =>
      obtain ⟨rfl, hin⟩ := role_eq_input_iff.mp hrole
      obtain ⟨i, hi, hip⟩ := List.any_eq_true.mp hin
      have hout := h.not_mem_outputs hi
      rw [eq_of_beq hip] at hout
      have hno : d.hasOutput (some p) = false :=
        Bool.eq_false_iff.mpr fun h => hout (List.contains_iff_mem.mp h)
      exact .inl ⟨p, rfl, rfl, hin, hno⟩
  | output => exact .inr (.inl ⟨rfl, role_eq_output_iff.mp hrole⟩)
  | absent =>
      have hin : d.hasInput pin = false := by
        rw [Bool.eq_false_iff]
        intro hin
        cases pin with
        | none => cases hin
        | some p =>
            rw [role_eq_input_iff.mpr ⟨rfl, hin⟩] at hrole
            cases hrole
      refine .inr (.inr ⟨rfl, hin, Bool.eq_false_iff.mpr fun hout => ?_⟩)
      rw [role_eq_output_iff.mpr ⟨hin, hout⟩] at hrole
      cases hrole

namespace Circuit

/-! ## Programs that change a circuit -/

/--
A program that works on a circuit in place. What it has changed before it fails stays changed. It
fails without a cause where it looks for a device in a place that holds none.
-/
abbrev Program (ε α : Type) := EStateM (Option ε) Circuit α

/-- Write a signal into an input, which stands in place `k` of the device in place `n`. -/
def write (c : Circuit) (n k : Nat) (source : Signal) : Circuit :=
  { c with devices := c.devices.modify n fun d =>
      { d with inputs := d.inputs.modify k fun i => { i with source := some source } } }

namespace Program

variable {ε : Type}

/-- Refuse, for a cause. -/
def refuse {α : Type} (cause : ε) : Program ε α := throw (some cause)

/-- The place of the device of a name. -/
def place (id : NameId) (absent : ε) : Program ε Nat := do
  match (← get).index.lookup id with
  | some n => return n
  | none => refuse absent

/-- The device in a place. -/
def deviceIn (n : Nat) : Program ε Device := do
  match (← get).devices[n]? with
  | some d => return d
  | none => throw none

/-- Add a device: enter its name in the index, then put it behind the others. -/
def addDevice (id kind : NameId) (qualifier : Option Int) : Program DeviceError Unit := do
  let c ← get
  if (c.index.lookup id).isSome then refuse .devicePresent
  else
    match c.catalogue.kind? kind with
    | none => refuse .badDevice
    | some kind =>
      match c.catalogue.device id kind qualifier with
      | .error e => refuse e
      | .ok d =>
        modify fun c => { c with index := c.index ++ [(id, c.devices.length)] }
        modify fun c => { c with devices := c.devices ++ [d] }

/-- Find an input of the device in a place, write a signal into it, and count the connection. -/
def drive (n : Nat) (pin : Option NameId) (source : Signal) : Program ConnectionError Unit := do
  let d ← deviceIn n
  match d.inputs.findIdx? (fun i => some i.pin == pin) with
  | none => refuse .pinAbsent
  | some k =>
    if (d.inputs[k]?.bind Input.source).isSome then refuse .inputConnected
    else
      modify fun c => c.write n k source
      modify fun c => { c with connectionCount := c.connectionCount + 1 }

/-- Connect two pins, asking first whether the pin that is named first is an input. -/
def connect (first second : Signal) : Program ConnectionError Unit := do
  let n ← place first.device .outputDeviceAbsent
  let m ← place second.device .inputDeviceAbsent
  let d ← deviceIn n
  let e ← deviceIn m
  if d.hasInput first.pin then
    if e.hasOutput second.pin then drive n first.pin second
    else if e.hasInput second.pin then refuse .inputToInput
    else refuse .pinAbsent
  else if d.hasOutput first.pin then
    if e.hasInput second.pin then drive m second.pin first
    else if e.hasOutput second.pin then refuse .outputToOutput
    else refuse .pinAbsent
  else refuse .pinAbsent

/-- Watch an output, behind those that are watched already. -/
def addMonitor (s : Signal) : Program MonitorError Unit := do
  let n ← place s.device .deviceAbsent
  let d ← deviceIn n
  let c ← get
  if !d.hasOutput s.pin then refuse .notOutput
  else if s ∈ c.monitors then refuse .monitorPresent
  else modify fun c => { c with monitors := c.monitors ++ [s] }

/-- What a program comes to: its answer and the circuit it leaves, if it finds all its places. -/
def outcome (cause : ε → ErrorKind) (program : Program ε Unit) (c : Circuit) :
    Option (Option ErrorKind × Circuit) :=
  match program c with
  | .ok () next => some (none, next)
  | .error (some e) next => some (some (cause e), next)
  | .error none _ => none

end Program

/-- Deal with a call in place. -/
def perform (c : Circuit) : Call → Option (Option ErrorKind × Circuit)
  | .device id kind qualifier =>
    Program.outcome .device (Program.addDevice id kind qualifier) c
  | .connection first firstPin second secondPin =>
    Program.outcome .connection (Program.connect ⟨first, firstPin⟩ ⟨second, secondPin⟩) c
  | .monitor id pin => Program.outcome .monitor (Program.addMonitor ⟨id, pin⟩) c

/-! ## Dealing with a call in place comes to the same -/

variable {t : NameTable} {c next : Circuit} {d : Device} {n k : Nat}

/-- A pin that is an input to the device of its name stands in some place among its inputs. -/
theorem Indexed.exists_place (h : c.Indexed) {s : Signal} {pin : NameId}
    (hd : c.device? s.device = some d) (hin : d.role s.pin = .input pin) :
    d ∈ c.devices ∧ s = ⟨d.id, some pin⟩ ∧
      ∃ k : Nat, d.inputs[k]? = some ⟨pin, d.source? pin⟩ := by
  obtain ⟨hmem, hid⟩ := h.device?_eq_some_iff.mp hd
  obtain ⟨hpin, hhas⟩ := Device.role_eq_input_iff.mp hin
  rw [hpin] at hhas
  obtain ⟨k, -, hk⟩ := Device.exists_place_input hhas
  exact ⟨hmem, by rw [hid, ← hpin], k, hk⟩

/-- To drive an input, wherever its name stands, is to write into its place. -/
theorem devices_write (h : c.Consistent t) (hd : c.devices[n]? = some d) {i : Input}
    (hi : d.inputs[k]? = some i) (source : Signal) :
    c.devices.map (fun e => if e.id = d.id then e.drive i.pin source else e) =
      (c.write n k source).devices := by
  have hmem : d ∈ c.devices := List.mem_of_getElem? hd
  refine map_ite_eq_modify h.indexed.nodup_ids hd ?_
  rw [Device.drive, map_ite_eq_modify (h.prescribed d hmem).nodup_pins hi]
  rfl

namespace Program

variable {ε α β : Type}

/-- The result that ends in a circuit made anew, or refuses and ends where it began. -/
def ended (c : Circuit) : Except ε Circuit → EStateM.Result (Option ε) Circuit Unit
  | .ok next => .ok () next
  | .error e => .error (some e) c

theorem outcome_eq {program : Program ε Unit} {made : Except ε Circuit}
    (h : program c = ended c made) (cause : ε → ErrorKind) :
    program.outcome cause c = some (refusal? cause (replyOf c made).1, (replyOf c made).2) := by
  rw [outcome, h]
  cases made <;> rfl

theorem bind_of_ok {program : Program ε α} {a : α} (h : program c = .ok a next)
    (f : α → Program ε β) : (program >>= f) c = f a next := by
  simp only [bind, EStateM.bind, h]

theorem bind_of_error {program : Program ε α} {e : Option ε} (h : program c = .error e next)
    (f : α → Program ε β) : (program >>= f) c = .error e next := by
  simp only [bind, EStateM.bind, h]

theorem get_bind (f : Circuit → Program ε α) : (get >>= f) c = f c c := rfl

/-- A name that is in the index stands for a device, which is found in its place. -/
theorem place_cases (h : c.Indexed) (id : NameId) (absent : ε) :
    c.device? id = none ∧ place id absent c = .error (some absent) c ∨
      ∃ n d, c.device? id = some d ∧ c.devices[n]? = some d ∧ place id absent c = .ok n c := by
  rw [place, get_bind, device?]
  cases hn : c.index.lookup id with
  | none => exact .inl ⟨rfl, rfl⟩
  | some n =>
      obtain ⟨d, hd, -⟩ := (h id n).mp hn
      exact .inr ⟨n, d, hd, hd, rfl⟩

theorem deviceIn_of_some (h : c.devices[n]? = some d) :
    (deviceIn n : Program ε Device) c = .ok d c := by
  rw [deviceIn, get_bind, h]
  rfl

theorem addDevice_eq (c : Circuit) (id kind : NameId) (qualifier : Option Int) :
    addDevice id kind qualifier c = ended c (c.addDevice id kind qualifier) := by
  rw [addDevice, get_bind, Circuit.addDevice]
  by_cases hold : (c.index.lookup id).isSome = true
  · rw [if_pos hold, if_pos hold]
    rfl
  · rw [if_neg hold, if_neg hold]
    cases c.catalogue.kind? kind with
    | none => rfl
    | some k => cases hmade : c.catalogue.device id k qualifier <;> simp only [hmade] <;> rfl

theorem drive_eq (h : c.Consistent t) (hd : c.devices[n]? = some d) {pin : NameId}
    (hpin : d.hasInput (some pin) = true) (source : Signal) :
    drive n (some pin) source c = ended c (c.drive d pin source) := by
  obtain ⟨k, hfind, hk⟩ := Device.exists_place_input hpin
  have hdevices := devices_write h hd hk source
  rw [drive, bind_of_ok (deviceIn_of_some hd), Circuit.drive, hdevices]
  simp only [hfind, hk, Option.bind_some]
  cases d.source? pin <;> rfl

theorem addMonitor_eq (h : c.Consistent t) (s : Signal) :
    addMonitor s c = ended c (c.addMonitor s.device s.pin) := by
  rw [addMonitor, Circuit.addMonitor]
  rcases place_cases h.indexed s.device MonitorError.deviceAbsent with
    ⟨hnone, hplace⟩ | ⟨n, d, hd, hn, hplace⟩
  · rw [bind_of_error hplace, hnone]
    rfl
  · rw [bind_of_ok hplace, bind_of_ok (deviceIn_of_some hn), get_bind, hd]
    by_cases hout : (!d.hasOutput s.pin) = true
    · simp only [hout, if_true]
      rfl
    · by_cases hwatched : s ∈ c.monitors
      · simp only [hout, hwatched, if_true]
        rfl
      · simp only [hout, hwatched, if_false]
        rfl

theorem connect_eq (h : c.Consistent t) (first second : Signal) :
    connect first second c =
      ended c (c.connect first.device first.pin second.device second.pin) := by
  rw [connect, Circuit.connect]
  rcases place_cases h.indexed first.device ConnectionError.outputDeviceAbsent with
    ⟨hnone, hplace⟩ | ⟨n, d, hd, hn, hplace⟩
  · rw [bind_of_error hplace, hnone]
    rfl
  rcases place_cases h.indexed second.device ConnectionError.inputDeviceAbsent with
    ⟨hnone', hplace'⟩ | ⟨m, e, he, hm, hplace'⟩
  · rw [bind_of_ok hplace, bind_of_error hplace', hd, hnone']
    rfl
  rw [bind_of_ok hplace, bind_of_ok hplace', bind_of_ok (deviceIn_of_some hn),
    bind_of_ok (deviceIn_of_some hm), hd, he]
  have hpins := (h.prescribed d (List.mem_of_getElem? hn)).role_cases first.pin
  have hpins' := (h.prescribed e (List.mem_of_getElem? hm)).role_cases second.pin
  rcases hpins with ⟨p, hp, hrole, hin, hout⟩ | ⟨hrole, hin, hout⟩ | ⟨hrole, hin, hout⟩
  · -- the first pin is an input
    rcases hpins' with
      ⟨q, hq, hrole', hin', hout'⟩ | ⟨hrole', hin', hout'⟩ | ⟨hrole', hin', hout'⟩ <;>
      simp only [hrole, hin, hrole', hin', hout', if_true, Bool.false_eq_true, if_false]
    · rfl
    · rw [hp] at hin ⊢
      exact drive_eq h hn hin _
    · rfl
  · -- the first pin is an output
    rcases hpins' with
      ⟨q, hq, hrole', hin', hout'⟩ | ⟨hrole', hin', hout'⟩ | ⟨hrole', hin', hout'⟩ <;>
      simp only [hrole, hin, hout, hrole', hin', hout', if_true, Bool.false_eq_true, if_false]
    · rw [hq] at hin' ⊢
      exact drive_eq h hm hin' _
    · rfl
    · rfl
  · simp only [hrole, hin, hout, Bool.false_eq_true, if_false]
    rfl

end Program

/-- **To deal with a call in place comes to the same**, and all places looked for are there. -/
theorem perform_eq (h : c.Consistent t) (call : Call) :
    c.perform call = some (NetworkBuilder.answer c call) := by
  cases call with
  | device id kind qualifier =>
      exact Program.outcome_eq (Program.addDevice_eq c id kind qualifier) _
  | connection first firstPin second secondPin =>
      exact Program.outcome_eq (Program.connect_eq h ⟨first, firstPin⟩ ⟨second, secondPin⟩) _
  | monitor id pin => exact Program.outcome_eq (Program.addMonitor_eq h ⟨id, pin⟩) _

end Circuit

end LogicNet
