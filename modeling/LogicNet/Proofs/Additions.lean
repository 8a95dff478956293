import LogicNet.Proofs.InPlace

/-!
# What a call adds to a circuit

A call that is refused leaves the circuit as it was, and a call that is taken adds one thing to it.
`Circuit.Gains` says what: a device behind the others and its name in the index, a signal in an
input that had none and one connection more, or a signal behind those that are watched. It speaks of
places, so that all that is not named in it is the same before and afterwards.

What one call adds is never taken back by another. `Circuit.Grows` compares a circuit with what it
is later on, place by place, and holds after any calls: the devices stand where they stood, they
have the pins they had, and an input that was driven is driven by the same signal.

The calls are dealt with in place, as by `Circuit.perform`, which might have changed something
before it found a reason to refuse.
-/

namespace LogicNet

/-! ## More inputs are driven -/

/-- A device is another one, some more inputs of which are driven. -/
structure Device.Filled (d e : Device) : Prop where
  samePins : e.SamePins d
  sources : ∀ (k : Nat) pin s,
    d.inputs[k]? = some ⟨pin, some s⟩ → e.inputs[k]? = some ⟨pin, some s⟩

namespace Device.Filled

variable {d e x : Device}

theorem refl (d : Device) : d.Filled d := ⟨.refl d, fun _ _ _ h => h⟩

theorem trans (h : d.Filled e) (h' : e.Filled x) : d.Filled x :=
  ⟨h'.samePins.trans h.samePins, fun k pin s hk => h'.sources k pin s (h.sources k pin s hk)⟩

/-- To write a signal into an input that has none loses nothing. -/
theorem modify {k : Nat} {pin : NameId} (hk : d.inputs[k]? = some ⟨pin, none⟩) (s : Signal) :
    d.Filled { d with inputs := d.inputs.modify k fun i => { i with source := some s } } := by
  refine ⟨⟨rfl, rfl, rfl, ?_, rfl⟩, ?_⟩
  · apply List.ext_getElem?
    intro m
    rw [List.getElem?_map, List.getElem?_modify, List.getElem?_map, Option.map_eq_map,
      Option.map_map]
    refine Option.map_congr fun i _ => ?_
    simp only [Function.comp_apply]
    split <;> rfl
  · intro m q source hm
    have hne : k ≠ m := by
      rintro rfl
      rw [hk] at hm
      cases hm
    exact (List.getElem?_modify_ne _ _ hne).trans hm

end Device.Filled

namespace Circuit

variable {t : NameTable} {c next last : Circuit}

/-! ## One call -/

/-- What a circuit becomes by a call that it takes: one thing is added, and all else stays. -/
inductive Gains (c : Circuit) : Call → Circuit → Prop where
  /-- A device of a new name, no input of which is driven. -/
  | device {d : Device} {kind : NameId} (hkind : c.catalogue.kind? kind = some d.kind)
      (hnew : c.index.lookup d.id = none) (hopen : ∀ i ∈ d.inputs, i.source = none) :
      Gains c (.device d.id kind d.qualifier)
        { c with devices := c.devices ++ [d], index := c.index ++ [(d.id, c.devices.length)] }
  /-- In input `k` of the device in place `n`, which had no source, the signal of the other end. -/
  | connection {first second i o : Signal} {n k : Nat} {d : Device} {pin : NameId}
      (hends : first = i ∧ second = o ∨ first = o ∧ second = i)
      (hd : c.devices[n]? = some d) (hi : i = ⟨d.id, some pin⟩)
      (hk : d.inputs[k]? = some ⟨pin, none⟩) (ho : c.HasOutput o) :
      Gains c (.connection first.device first.pin second.device second.pin)
        { c.write n k o with connectionCount := c.connectionCount + 1 }
  /-- A signal that is an output and was not watched. -/
  | monitor {s : Signal} (ho : c.HasOutput s) (hnew : s ∉ c.monitors) :
      Gains c (.monitor s.device s.pin) { c with monitors := c.monitors ++ [s] }

theorem gains_addDevice {id kind : NameId} {qualifier : Option Int}
    (h : c.addDevice id kind qualifier = .ok next) : c.Gains (.device id kind qualifier) next := by
  obtain ⟨hnew, k, hkind, d, hmade, rfl⟩ := addDevice_eq_ok_iff.mp h
  obtain ⟨-, rfl⟩ := Catalogue.device_eq_ok_iff.mp hmade
  refine Gains.device (d := ⟨id, k, qualifier, _, _⟩) hkind
    (Option.not_isSome_iff_eq_none.mp hnew) ?_
  intro i hi
  obtain ⟨pin, -, rfl⟩ := List.mem_map.mp hi
  rfl

/-- An input that is driven stands in some place, where a signal is written. -/
theorem gains_wires (h : c.Consistent t) {first second i o : Signal}
    (hends : first = i ∧ second = o ∨ first = o ∧ second = i) (hwires : c.Wires i o next) :
    c.Gains (.connection first.device first.pin second.device second.pin) next := by
  obtain ⟨d, e, pin, hd, hin, he, hout, hdrive⟩ := hwires
  obtain ⟨hmem, hi, k, hk⟩ := h.indexed.exists_place hd hin
  obtain ⟨-, hout⟩ := Device.role_eq_output_iff.mp hout
  obtain ⟨hfree, rfl⟩ := drive_eq_ok_iff.mp hdrive
  obtain ⟨n, hn⟩ := List.mem_iff_getElem?.mp hmem
  have hdevices := devices_write h hn hk o
  rw [hfree] at hk
  rw [hdevices]
  exact Gains.connection hends hn hi hk (h.indexed.hasOutput he hout)

theorem gains_addMonitor (h : c.Consistent t) {s : Signal}
    (hadd : c.addMonitor s.device s.pin = .ok next) :
    c.Gains (.monitor s.device s.pin) next := by
  obtain ⟨d, hd, hout, hnew, rfl⟩ := addMonitor_eq_ok_iff.mp hadd
  exact Gains.monitor (h.indexed.hasOutput hd hout) hnew

/-- **A call that is taken adds one thing.** -/
theorem gains_answer (h : c.Consistent t) {call : Call}
    (htaken : NetworkBuilder.answer c call = (none, next)) : c.Gains call next := by
  cases call with
  | device id kind qualifier => exact gains_addDevice (refusal?_replyOf_iff.mp htaken)
  | connection first firstPin second secondPin =>
      let p : Signal := ⟨first, firstPin⟩
      let q : Signal := ⟨second, secondPin⟩
      have hconnect : c.connect p.device p.pin q.device q.pin = .ok next :=
        refusal?_replyOf_iff.mp htaken
      rcases connect_eq_ok_iff.mp hconnect with hwires | hwires
      · exact gains_wires h (.inl ⟨rfl, rfl⟩) hwires
      · exact gains_wires h (.inr ⟨rfl, rfl⟩) hwires
  | monitor id pin => exact gains_addMonitor (s := ⟨id, pin⟩) h (refusal?_replyOf_iff.mp htaken)

/-! ## Many calls -/

/-- A circuit is another one with more in it: what was there is there, and in its place. -/
structure Grows (c next : Circuit) : Prop where
  devices : ∀ (n : Nat) d, c.devices[n]? = some d → ∃ e, next.devices[n]? = some e ∧ d.Filled e
  index : c.index <+: next.index
  monitors : c.monitors <+: next.monitors
  connectionCount : c.connectionCount ≤ next.connectionCount
  catalogue : next.catalogue = c.catalogue

theorem Grows.refl (c : Circuit) : c.Grows c :=
  ⟨fun _ d hd => ⟨d, hd, .refl d⟩, List.prefix_rfl, List.prefix_rfl, le_rfl, rfl⟩

theorem Grows.trans (h : c.Grows next) (h' : next.Grows last) : c.Grows last where
  devices := by
    intro n d hd
    obtain ⟨e, he, hfilled⟩ := h.devices n d hd
    obtain ⟨x, hx, hfilled'⟩ := h'.devices n e he
    exact ⟨x, hx, hfilled.trans hfilled'⟩
  index := h.index.trans h'.index
  monitors := h.monitors.trans h'.monitors
  connectionCount := h.connectionCount.trans h'.connectionCount
  catalogue := h'.catalogue.trans h.catalogue

/-- **One thing more, and nothing less.** -/
theorem Gains.grows {call : Call} (h : c.Gains call next) : c.Grows next := by
  cases h with
  | device hkind hnew hopen =>
      refine ⟨?_, List.prefix_append .., List.prefix_rfl, le_rfl, rfl⟩
      intro n d hd
      obtain ⟨hlt, -⟩ := List.getElem?_eq_some_iff.mp hd
      exact ⟨d, by rw [List.getElem?_append_left hlt]; exact hd, .refl d⟩
  | @connection first second i o n k d pin hends hd hi hk ho =>
      refine ⟨?_, List.prefix_rfl, List.prefix_rfl, Nat.le_succ _, rfl⟩
      intro m e he
      by_cases hm : n = m
      · -- the device that has the input
        subst hm
        obtain rfl := Option.some.inj (hd.symm.trans he)
        have hwritten := List.getElem?_modify_eq (fun d : Device =>
          { d with inputs := d.inputs.modify k fun i => { i with source := some o } }) n c.devices
        rw [hd] at hwritten
        exact ⟨_, hwritten, .modify hk o⟩
      · exact ⟨e, (List.getElem?_modify_ne _ _ hm).trans he, .refl e⟩
  | monitor ho hnew =>
      exact ⟨(Grows.refl c).devices, List.prefix_rfl, List.prefix_append .., le_rfl, rfl⟩

/-- A call is refused, and all is as it was, or it adds one thing. -/
theorem refuses_or_gains (h : c.Consistent t) (call : Call) :
    (∃ kind, c.Refuses call kind) ∨
      ∃ next, NetworkBuilder.answer c call = (none, next) ∧ c.Gains call next := by
  rcases c.taken_or_refuses call with ⟨next, htaken⟩ | hrefused
  · exact .inr ⟨next, htaken, gains_answer h htaken⟩
  · exact .inl hrefused

theorem grows_answer (h : c.Consistent t) (call : Call) :
    c.Grows (NetworkBuilder.answer c call).2 := by
  rcases refuses_or_gains h call with ⟨kind, hrefused⟩ | ⟨next, htaken, hgains⟩
  · rw [hrefused]
    exact .refl c
  · rw [htaken]
    exact hgains.grows

theorem grows_after (ht : t.HasVocabulary) (h : c.Consistent t) (calls : List Call) :
    c.Grows (c.after calls) := by
  have hboth : (c.after calls).Consistent t ∧ c.Grows (c.after calls) := by
    refine after_induction (P := fun next => next.Consistent t ∧ c.Grows next) ⟨h, .refl c⟩ ?_
    rintro next call - ⟨hnext, hgrows⟩
    exact ⟨consistent_answer ht hnext call, hgrows.trans (grows_answer hnext call)⟩
  exact hboth.2

/--
**A circuit only grows**, over a table of any names and after any calls. Whatever is asked of it
next, it refuses, and then nothing at all was changed, or it gains the one thing that was asked for.
Whatever is asked of it from then on, each device is in its place with its pins, each driven input
is driven by the same signal, and what is watched is watched in the same order.
-/
theorem only_grows (names : NameTable) (calls : List Call) :
    let c := (start names).2.after calls
    (∀ call, c.perform call = some (NetworkBuilder.answer c call) ∧
      ((∃ kind, c.Refuses call kind) ∨
        ∃ next, NetworkBuilder.answer c call = (none, next) ∧ c.Gains call next)) ∧
    ∀ more, c.Grows (c.after more) := by
  intro c
  obtain ⟨t, ht, hc⟩ : ∃ t, t.HasVocabulary ∧ c.Consistent t := exists_consistent names calls
  exact ⟨fun call => ⟨perform_eq hc call, refuses_or_gains hc call⟩,
    fun more => grows_after ht hc more⟩

end Circuit

end LogicNet
