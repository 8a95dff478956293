import LogicNet.Proofs.InPlace

/-!
# Connections in any order, from either end

A connection joins an input that has no source to an output, and nothing else about it counts.
`Circuit.connect?_eq_some_iff` says so for a circuit in any state that it can be in: the connection
is taken if one of its ends is a vacant input and the other one an output, and afterwards the
circuit is `Circuit.joined`, whichever end is which. No end can be both.

That an output is there does not change when another connection is made, and an input that is vacant
then was vacant before. So two connections can change places, and with them any number of
connections (`Circuit.connectAll?_perm`). An input that two of them name is vacant only for one.

Where a connection is refused, the two ends are told apart only by which of the two devices is not
there.
-/

namespace LogicNet

/-- The call that connects two pins. -/
def Call.join (p q : Signal) : Call := .connection p.device p.pin q.device q.pin

/-! ## One device -/

namespace Device

variable {d e : Device} {i o i' o' : Signal} {pin : NameId}

theorem hasInput_of_mem {source : Option Signal} (h : ⟨pin, source⟩ ∈ d.inputs) :
    d.hasInput (some pin) = true :=
  List.any_eq_true.mpr ⟨_, h, beq_self_eq_true pin⟩

/-- An input is found with the source that it has, since no other input has its name. -/
theorem Prescribed.source?_of_mem {t : NameTable} (h : d.Prescribed t) {source : Option Signal}
    (hmem : ⟨pin, source⟩ ∈ d.inputs) : d.source? pin = source := by
  obtain ⟨k, -, hk⟩ := exists_place_input (hasInput_of_mem hmem)
  have hsame := List.inj_on_of_nodup_map h.nodup_pins (List.mem_of_getElem? hk) hmem rfl
  exact congrArg Input.source hsame

/-- Let a signal drive an input, if it is an input of this device. -/
def feed (d : Device) (i o : Signal) : Device :=
  { d with inputs := d.inputs.map fun x =>
      if (⟨d.id, some x.pin⟩ : Signal) = i then { x with source := some o } else x }

theorem samePins_feed (d : Device) (i o : Signal) : (d.feed i o).SamePins d := by
  refine ⟨rfl, rfl, rfl, ?_, rfl⟩
  rw [feed, List.map_map]
  apply List.map_congr_left
  intro x _
  simp only [Function.comp_apply]
  split <;> rfl

/-- To drive an input of one device is to let it be fed in all devices. -/
theorem drive_eq_feed (d e : Device) (pin : NameId) (o : Signal) :
    (if e.id = d.id then e.drive pin o else e) = e.feed ⟨d.id, some pin⟩ o := by
  split
  · next hid =>
      simp only [drive, feed, Signal.mk.injEq, hid, true_and, Option.some.injEq]
      congr 1
      apply List.map_congr_left
      intro x _
      split
      · next hx => rw [hx]
      · rfl
  · next hid => simp [feed, hid]

theorem mem_feed_iff : ⟨pin, none⟩ ∈ (d.feed i o).inputs ↔
    ⟨pin, none⟩ ∈ d.inputs ∧ (⟨d.id, some pin⟩ : Signal) ≠ i := by
  simp only [feed, List.mem_map]
  refine ⟨?_, fun h => ⟨_, h.1, if_neg h.2⟩⟩
  rintro ⟨x, hx, heq⟩
  split at heq
  · cases heq
  · next hne =>
      subst heq
      exact ⟨hx, hne⟩

/-- Two inputs can be fed in either order. -/
theorem feed_comm (hne : i ≠ i') : (d.feed i o).feed i' o' = (d.feed i' o').feed i o := by
  simp only [feed, List.map_map]
  congr 1
  apply List.map_congr_left
  intro x _
  simp only [Function.comp_apply]
  obtain rfl | hi := eq_or_ne (⟨d.id, some x.pin⟩ : Signal) i
  · simp [hne]
  · obtain rfl | hi' := eq_or_ne (⟨d.id, some x.pin⟩ : Signal) i'
    · simp [hi]
    · simp [hi, hi']

end Device

namespace Circuit

variable {t : NameTable} {c next last : Circuit} {p q i o i' o' s : Signal}

/-! ## One connection -/

/-- A signal names an input of one of the devices. -/
def HasInput (c : Circuit) (s : Signal) : Prop :=
  ∃ d ∈ c.devices, d.id = s.device ∧ d.hasInput s.pin = true

/-- A signal names an input that has no source. -/
def Vacant (c : Circuit) (s : Signal) : Prop :=
  ∃ d ∈ c.devices, ∃ pin, s = ⟨d.id, some pin⟩ ∧ ⟨pin, none⟩ ∈ d.inputs

/-- The circuit with one connection more, from an output to an input. -/
def joined (c : Circuit) (i o : Signal) : Circuit :=
  { c with devices := c.devices.map (·.feed i o), connectionCount := c.connectionCount + 1 }

/-- No pin is both an input and an output. -/
theorem Consistent.not_hasOutput (h : c.Consistent t) (hs : c.HasInput s) : ¬ c.HasOutput s := by
  rintro ⟨e, he, heid, hout⟩
  obtain ⟨d, hd, hdid, hin⟩ := hs
  obtain rfl := Option.some.inj ((h.indexed.device?_eq_some_iff.mpr ⟨hd, hdid⟩).symm.trans
    (h.indexed.device?_eq_some_iff.mpr ⟨he, heid⟩))
  rcases (h.prescribed d hd).role_cases s.pin with
    ⟨-, -, -, -, hno⟩ | ⟨-, hno, -⟩ | ⟨-, hno, -⟩
  · exact Bool.eq_false_iff.mp hno (List.contains_iff_mem.mpr hout)
  · exact Bool.eq_false_iff.mp hno hin
  · exact Bool.eq_false_iff.mp hno hin

/-- What is an output is found to be one. -/
theorem Consistent.role_of_hasOutput (h : c.Consistent t) (ho : c.HasOutput s) :
    ∃ e, c.device? s.device = some e ∧ e.role s.pin = .output := by
  have hnot : ¬ c.HasInput s := fun hs => h.not_hasOutput hs ho
  obtain ⟨e, he, hid, hout⟩ := ho
  have hnone : e.hasInput s.pin = false := Bool.eq_false_iff.mpr fun hin => hnot ⟨e, he, hid, hin⟩
  exact ⟨e, h.indexed.device?_eq_some_iff.mpr ⟨he, hid⟩,
    Device.role_eq_output_iff.mpr ⟨hnone, List.contains_iff_mem.mpr hout⟩⟩

/-- **An output is let drive an input that is vacant.** -/
theorem wires_iff (h : c.Consistent t) :
    c.Wires i o next ↔ c.Vacant i ∧ c.HasOutput o ∧ next = c.joined i o := by
  have hjoined : ∀ (d : Device) (pin : NameId), i = ⟨d.id, some pin⟩ →
      { c with
        devices := c.devices.map fun e => if e.id = d.id then e.drive pin o else e
        connectionCount := c.connectionCount + 1 } = c.joined i o := by
    rintro d pin rfl
    simp only [joined, Device.drive_eq_feed]
  refine ⟨?_, ?_⟩
  · rintro ⟨d, e, pin, hd, hin, he, hout, hdrive⟩
    obtain ⟨hmem, hi, k, hk⟩ := h.indexed.exists_place hd hin
    obtain ⟨-, hout⟩ := Device.role_eq_output_iff.mp hout
    obtain ⟨hfree, rfl⟩ := drive_eq_ok_iff.mp hdrive
    rw [hfree] at hk
    exact ⟨⟨d, hmem, pin, hi, List.mem_of_getElem? hk⟩, h.indexed.hasOutput he hout,
      hjoined d pin hi⟩
  · rintro ⟨⟨d, hd, pin, hi, hopen⟩, ho, rfl⟩
    obtain ⟨e, he, hout⟩ := h.role_of_hasOutput ho
    refine ⟨d, e, pin, ?_, ?_, he, hout, drive_eq_ok_iff.mpr ⟨?_, hjoined d pin hi⟩⟩
    · rw [hi]
      exact h.indexed.device?_eq_some_iff.mpr ⟨hd, rfl⟩
    · rw [hi]
      exact Device.role_eq_input_iff.mpr ⟨rfl, Device.hasInput_of_mem hopen⟩
    · exact (h.prescribed d hd).source?_of_mem hopen

theorem consistent_joined (h : c.Consistent t) (hi : c.Vacant i) (ho : c.HasOutput o) :
    (c.joined i o).Consistent t :=
  consistent_wires h ((wires_iff h).mpr ⟨hi, ho, rfl⟩)

/-! ## From either end -/

/-- Two pins of devices that are there are joined alike from either end. -/
theorem connect_comm {d e : Device} (hd : c.device? p.device = some d)
    (he : c.device? q.device = some e) :
    c.connect p.device p.pin q.device q.pin = c.connect q.device q.pin p.device p.pin := by
  unfold connect
  rw [hd, he]
  -- nine pairs of roles, and each gives the same as the pair the other way round
  cases hp : d.role p.pin <;> cases hq : e.role q.pin <;> simp only [hp, hq]

/--
**A connection may be written from either end**, in a circuit over a table of any names and after
any calls. The two calls lead to the same circuit with the same answer, except where just one of the
two devices is there: then the cause tells on which side the other one is missing.
-/
theorem perform_join_comm (names : NameTable) (calls : List Call) (p q : Signal) :
    let c := (start names).2.after calls
    let there := c.perform (.join p q)
    let back := c.perform (.join q p)
    there = some (NetworkBuilder.answer c (.join p q)) ∧
      back = some (NetworkBuilder.answer c (.join q p)) ∧
      match c.device? p.device, c.device? q.device with
      | some _, none =>
        there = some (some (.connection .inputDeviceAbsent), c) ∧
          back = some (some (.connection .outputDeviceAbsent), c)
      | none, some _ =>
        there = some (some (.connection .outputDeviceAbsent), c) ∧
          back = some (some (.connection .inputDeviceAbsent), c)
      | _, _ => there = back := by
  intro c there back
  obtain ⟨t, -, hc⟩ : ∃ t, t.HasVocabulary ∧ c.Consistent t := exists_consistent names calls
  have hthere : there = some (NetworkBuilder.answer c (.join p q)) := perform_eq hc _
  have hback : back = some (NetworkBuilder.answer c (.join q p)) := perform_eq hc _
  refine ⟨hthere, hback, ?_⟩
  have hanswer : ∀ a b : Signal, NetworkBuilder.answer c (.join a b) =
      (refusal? .connection (replyOf c (c.connect a.device a.pin b.device b.pin)).1,
        (replyOf c (c.connect a.device a.pin b.device b.pin)).2) := fun _ _ => rfl
  rw [hthere, hback, hanswer, hanswer]
  cases hp : c.device? p.device with
  | none =>
      cases hq : c.device? q.device with
      | none => simp only [connect, hp, hq]
      | some e =>
          simp only [connect, hp, hq]
          exact ⟨rfl, rfl⟩
  | some d =>
      cases hq : c.device? q.device with
      | none =>
          simp only [connect, hp, hq]
          exact ⟨rfl, rfl⟩
      | some e =>
          simp only
          rw [connect_comm hp hq]

/-! ## After a connection -/

theorem hasInput_joined : (c.joined i o).HasInput s ↔ c.HasInput s := by
  simp only [HasInput, joined, List.mem_map, exists_exists_and_eq_and,
    (Device.samePins_feed _ i o).hasInput_eq, (Device.samePins_feed _ i o).id]

theorem hasOutput_joined : (c.joined i o).HasOutput s ↔ c.HasOutput s := by
  simp only [HasOutput, joined, List.mem_map, exists_exists_and_eq_and,
    (Device.samePins_feed _ i o).outputs, (Device.samePins_feed _ i o).id]

/-- An input is vacant afterwards if it was vacant, and is another one. -/
theorem vacant_joined : (c.joined i o).Vacant s ↔ c.Vacant s ∧ s ≠ i := by
  simp only [Vacant, joined, List.mem_map, exists_exists_and_eq_and,
    (Device.samePins_feed _ i o).id, Device.mem_feed_iff]
  refine ⟨?_, ?_⟩
  · rintro ⟨d, hd, pin, rfl, hopen, hne⟩
    exact ⟨⟨d, hd, pin, rfl, hopen⟩, hne⟩
  · rintro ⟨⟨d, hd, pin, rfl, hopen⟩, hne⟩
    exact ⟨d, hd, pin, rfl, hopen, hne⟩

theorem joined_comm (hne : i ≠ i') : (c.joined i o).joined i' o' = (c.joined i' o').joined i o := by
  simp only [joined, List.map_map]
  congr 1
  exact List.map_congr_left fun d _ => Device.feed_comm hne

/-! ## Many connections -/

/-- The circuit with a connection, if it is taken. -/
def connect? (c : Circuit) (j : Signal × Signal) : Option Circuit :=
  match c.perform (.join j.1 j.2) with
  | some (none, next) => some next
  | _ => none

/-- The circuit with connections that are made one after another, if all of them are taken. -/
def connectAll? (c : Circuit) (js : List (Signal × Signal)) : Option Circuit :=
  js.foldlM connect? c

variable {j j' : Signal × Signal} {js js' : List (Signal × Signal)}

/-- **A connection is taken if one end is a vacant input and the other one an output.** -/
theorem connect?_eq_some_iff (h : c.Consistent t) :
    c.connect? j = some next ↔ ∃ i o, (j = (i, o) ∨ j = (o, i)) ∧ c.Vacant i ∧ c.HasOutput o ∧
      next = c.joined i o := by
  have htaken : c.connect? j = some next ↔
      NetworkBuilder.answer c (.join j.1 j.2) = (none, next) := by
    rw [connect?, perform_eq h]
    obtain ⟨refusal, last⟩ := NetworkBuilder.answer c (.join j.1 j.2)
    cases refusal <;> simp
  have hconnect : NetworkBuilder.answer c (.join j.1 j.2) = (none, next) ↔
      c.connect j.1.device j.1.pin j.2.device j.2.pin = .ok next := refusal?_replyOf_iff
  rw [htaken, hconnect, connect_eq_ok_iff, wires_iff h, wires_iff h]
  obtain ⟨p, q⟩ := j
  refine ⟨?_, ?_⟩
  · rintro (⟨hi, ho, rfl⟩ | ⟨hi, ho, rfl⟩)
    · exact ⟨p, q, .inl rfl, hi, ho, rfl⟩
    · exact ⟨q, p, .inr rfl, hi, ho, rfl⟩
  · rintro ⟨i, o, hj | hj, hi, ho, rfl⟩ <;> cases hj
    · exact .inl ⟨hi, ho, rfl⟩
    · exact .inr ⟨hi, ho, rfl⟩

/-- Two connections that are taken are taken the other way round too. -/
theorem connect?_swap (h : c.Consistent t) (hj : c.connect? j = some next)
    (hj' : next.connect? j' = some last) :
    ∃ mid, c.connect? j' = some mid ∧ mid.connect? j = some last := by
  obtain ⟨i, o, hends, hi, ho, rfl⟩ := (connect?_eq_some_iff h).mp hj
  have hnext := consistent_joined h hi ho
  obtain ⟨i', o', hends', hi', ho', rfl⟩ := (connect?_eq_some_iff hnext).mp hj'
  obtain ⟨hi', hne⟩ := vacant_joined.mp hi'
  rw [hasOutput_joined] at ho'
  refine ⟨c.joined i' o', (connect?_eq_some_iff h).mpr ⟨i', o', hends', hi', ho', rfl⟩, ?_⟩
  exact (connect?_eq_some_iff (consistent_joined h hi' ho')).mpr
    ⟨i, o, hends, vacant_joined.mpr ⟨hi, hne.symm⟩, hasOutput_joined.mpr ho, joined_comm hne.symm⟩

/-- Two connections in either order come to the same, taken or not. -/
theorem connect?_comm (h : c.Consistent t) (j j' : Signal × Signal) :
    (c.connect? j).bind (·.connect? j') = (c.connect? j').bind (·.connect? j) := by
  apply Option.ext
  intro last
  simp only [Option.bind_eq_some_iff]
  refine ⟨?_, ?_⟩
  · rintro ⟨next, hj, hj'⟩
    exact connect?_swap h hj hj'
  · rintro ⟨next, hj', hj⟩
    exact connect?_swap h hj' hj

theorem consistent_connect? (h : c.Consistent t) (hj : c.connect? j = some next) :
    next.Consistent t := by
  obtain ⟨i, o, -, hi, ho, rfl⟩ := (connect?_eq_some_iff h).mp hj
  exact consistent_joined h hi ho

theorem connectAll?_cons : c.connectAll? (j :: js) = (c.connect? j).bind (·.connectAll? js) :=
  List.foldlM_cons

/-- **The order of connections does not count.** -/
theorem connectAll?_perm (h : c.Consistent t) (hperm : js.Perm js') :
    c.connectAll? js = c.connectAll? js' := by
  induction hperm generalizing c with
  | nil => rfl
  | cons j _ ih =>
      rw [connectAll?_cons, connectAll?_cons]
      exact Option.bind_congr fun next hj => ih (consistent_connect? h hj)
  | swap j j' js =>
      simp only [connectAll?_cons, ← Option.bind_assoc]
      rw [connect?_comm h]
  | trans _ _ ih ih' => exact (ih h).trans (ih' h)

/-! ## Connections with an end at the same input -/

/-- Whether a pin is one of the ends of a connection. -/
def isEnd (s : Signal) (j : Signal × Signal) : Bool := j.1 = s ∨ j.2 = s

/-- Of a connection that is taken, an input can only be the end that is driven. -/
theorem isEnd_iff (h : c.Consistent t) (hs : c.HasInput s) (hends : j = (i, o) ∨ j = (o, i))
    (ho : c.HasOutput o) : isEnd s j = true ↔ i = s := by
  have hne : o ≠ s := by
    rintro rfl
    exact h.not_hasOutput hs ho
  rcases hends with rfl | rfl <;> simp [isEnd, hne]

/-- No connection that is taken has an end at an input that has a source. -/
theorem countP_isEnd_eq_zero (h : c.Consistent t) (hs : c.HasInput s) (hfull : ¬ c.Vacant s)
    (hall : c.connectAll? js = some last) : js.countP (isEnd s) = 0 := by
  induction js generalizing c with
  | nil => rfl
  | cons j js ih =>
      obtain ⟨next, hj, hrest⟩ := Option.bind_eq_some_iff.mp (connectAll?_cons.symm.trans hall)
      have hnext := consistent_connect? h hj
      obtain ⟨i, o, hends, hi, ho, rfl⟩ := (connect?_eq_some_iff h).mp hj
      have hother : ¬ isEnd s j = true := by
        rw [isEnd_iff h hs hends ho]
        rintro rfl
        exact hfull hi
      rw [List.countP_cons_of_neg hother]
      exact ih hnext (hasInput_joined.mpr hs) (fun hs => hfull (vacant_joined.mp hs).1) hrest

/-- At most one of the connections that are taken has an end at an input. -/
theorem countP_isEnd_le_one (h : c.Consistent t) (hs : c.HasInput s)
    (hall : c.connectAll? js = some last) : js.countP (isEnd s) ≤ 1 := by
  induction js generalizing c with
  | nil => exact Nat.zero_le 1
  | cons j js ih =>
      obtain ⟨next, hj, hrest⟩ := Option.bind_eq_some_iff.mp (connectAll?_cons.symm.trans hall)
      have hnext := consistent_connect? h hj
      obtain ⟨i, o, hends, hi, ho, rfl⟩ := (connect?_eq_some_iff h).mp hj
      by_cases hend : isEnd s j = true
      · -- from here on the input has a source
        have hfull : ¬ (c.joined i o).Vacant s := fun hs' =>
          (vacant_joined.mp hs').2 ((isEnd_iff h hs hends ho).mp hend).symm
        rw [List.countP_cons_of_pos hend,
          countP_isEnd_eq_zero hnext (hasInput_joined.mpr hs) hfull hrest]
      · rw [List.countP_cons_of_neg hend]
        exact ih hnext (hasInput_joined.mpr hs) hrest

/--
**Connections can be made in any order**, in a circuit over a table of any names and after any
calls. If all of them are taken in one order, one after another, they are taken in every order, and
the same circuit comes of them. They are taken in no order if two of them have an end at the same
input.
-/
theorem connections_commute (names : NameTable) (calls : List Call) :
    let c := (start names).2.after calls
    (∀ js js' : List (Signal × Signal), js.Perm js' → c.connectAll? js = c.connectAll? js') ∧
    ∀ (js : List (Signal × Signal)) (s : Signal), c.HasInput s → 2 ≤ js.countP (isEnd s) →
      ∀ js', js.Perm js' → c.connectAll? js' = none := by
  intro c
  obtain ⟨t, -, hc⟩ : ∃ t, t.HasVocabulary ∧ c.Consistent t := exists_consistent names calls
  refine ⟨fun js js' hperm => connectAll?_perm hc hperm, ?_⟩
  intro js s hs htwo js' hperm
  rw [Option.eq_none_iff_forall_ne_some]
  intro last hall
  have hone := countP_isEnd_le_one hc hs hall
  rw [← hperm.countP_eq] at hone
  omega

/-- A flip-flop that is fed back: from either end, and not twice into its clock. -/
example :
    let c := (start .empty).2.after [.device ⟨35⟩ ⟨7⟩ none]
    let clock : Signal := ⟨⟨35⟩, some ⟨25⟩⟩
    let set : Signal := ⟨⟨35⟩, some ⟨26⟩⟩
    let q : Signal := ⟨⟨35⟩, some ⟨28⟩⟩
    (c.connectAll? [(q, clock), (set, q)]).map connectionCount = some 2 ∧
      c.connectAll? [(q, clock), (clock, q)] = none := by
  intro c clock set q
  unfold c clock set q
  cbv

end Circuit

end LogicNet
