import LogicNet.Proofs.Protocol
import LogicNet.Proofs.Wiring

/-!
# Which files are accepted, and what they build

A sentence is accepted if the builder takes all its declarations, one after the other, and then is
complete. For circuits this comes to the sentence being well formed: the run over each block keeps
the circuit that of the parts, connections and monitors so far, and the conditions that the
declarations meet one by one add up to the conditions on the whole.
-/

namespace LogicNet

/-! ## All declarations are taken -/

section

variable {β : Type} [NetworkBuilder β]

/-- Hand declarations to a builder until one is refused. -/
def NetworkBuilder.takeAll? (ids : String → NameId) (b : β) : List Declaration → Option β
  | [] => some b
  | d :: ds =>
    match answer b (d.call ids) with
    | (none, next) => takeAll? ids next ds
    | (some _, _) => none

/-- Hand a sentence to a builder until something is wrong. -/
def Sentence.build? (s : Sentence) (ids : String → NameId) (b : β) : Option β := do
  let b ← NetworkBuilder.takeAll? ids b (s.devices.map .device)
  let b ← NetworkBuilder.takeAll? ids b (s.connections.map .connection)
  if NetworkBuilder.isComplete b then
    NetworkBuilder.takeAll? ids b (s.monitors.map .monitor)
  else none

open NetworkBuilder

variable {ids : String → NameId}

theorem NetworkBuilder.takeAll?_cons_eq_some_iff {b last : β} {d : Declaration}
    {ds : List Declaration} :
    takeAll? ids b (d :: ds) = some last ↔
      ∃ next, answer b (d.call ids) = (none, next) ∧ takeAll? ids next ds = some last := by
  rw [takeAll?]
  split
  · next next h => simp [h]
  · next h => simp [h]

theorem HandsOver.takeAll?_eq {b last : β} {ds : List Declaration} {es : List Event}
    (h : HandsOver ids b ds es last) :
    takeAll? ids b ds = if Event.diagnostics es = [] then some last else none := by
  induction h with
  | nil => rfl
  | taken hd _ ih =>
      rw [takeAll?, hd]
      exact ih
  | refused hd _ _ _ =>
      rw [takeAll?, hd]
      simp [Event.diagnostics, Event.diagnostic?]

/-- Where nothing is refused, no device is rejected. -/
theorem Event.isRejected_eq_false {es : List Event} (h : es.any isRefusal = false) (id : NameId) :
    isRejected es id = false := by
  have hanswers : ∀ answer ∈ es.filterMap (answerAbout? id), answer = none := by
    intro answer hanswer
    obtain ⟨e, he, heq⟩ := List.mem_filterMap.mp hanswer
    have hno := List.any_eq_false.mp h e he
    -- only a call that declares a device is an answer about one
    rcases e with ⟨⟨name, kind, qualifier⟩ | _ | _, refusal⟩ | _ | _
    · cases refusal with
      | none => exact (by simpa [answerAbout?] using heq.symm : name = id ∧ answer = none).2
      | some kind => exact absurd rfl hno
    all_goals simp [answerAbout?] at heq
  unfold isRejected
  cases hlast : (es.filterMap (answerAbout? id)).getLast? with
  | none => rfl
  | some answer =>
      rw [hanswers answer (List.mem_of_getLast? hlast)]
      rfl

/-- Where no device is rejected, every declaration is handed over. -/
theorem Declaration.filter_isFree {es : List Event} (h : es.any Event.isRefusal = false)
    (ds : List Declaration) : ds.filter (·.isFree ids (Event.isRejected es)) = ds := by
  apply List.filter_eq_self.mpr
  intro d _
  simp [isFree, Event.isRejected_eq_false h]

/-- **A sentence is built if nothing is wrong with it.** -/
theorem Sentence.HandsOver.build?_eq {s : Sentence} {b last : β} {es : List Event}
    (h : s.HandsOver ids b es last) :
    s.build? ids b = if Event.diagnostics es = [] then some last else none := by
  obtain @⟨devices, connections, monitors, b₁, b₂, _, hdevices, hconnections, hmonitors⟩ := h
  rw [build?, hdevices.takeAll?_eq]
  by_cases hd : Event.diagnostics devices = []
  · -- no device is rejected, so nothing is passed over
    have hfree := hdevices.diagnostics_eq_nil_iff.mp hd
    rw [Declaration.filter_isFree hfree] at hconnections hmonitors
    rw [if_pos hd, Option.bind_eq_bind, Option.bind_some, hconnections.takeAll?_eq]
    by_cases hc : Event.diagnostics connections = []
    · have hclean : (devices ++ connections).any Event.isRefusal = false := by
        rw [List.any_append, hfree, hconnections.diagnostics_eq_nil_iff.mp hc]
        rfl
      rw [if_pos hc, Option.bind_some, hmonitors.takeAll?_eq, hclean]
      cases hcomplete : NetworkBuilder.isComplete b₂ with
      | true =>
          have hcheck : Event.diagnostics (completeness true s.connectionsEnd) = [] := rfl
          simp [hd, hc, hcheck]
      | false =>
          have hcheck : Event.diagnostics (completeness false s.connectionsEnd) ≠ [] := nofun
          simp [hcheck]
    · simp [hc]
  · simp [hd]

end

/-! ## A circuit takes what is well formed -/

namespace Circuit

variable {t : NameTable} {parts : List Part} {cs : List ConnectionDecl} {ms : List MonitorDecl}

open NetworkBuilder

theorem refusal?_replyOf_iff {ε : Type} {kind : ε → ErrorKind} {old next : Circuit}
    {result : Except ε Circuit} :
    (refusal? kind (replyOf old result).1, (replyOf old result).2) = (none, next) ↔
      result = .ok next := by
  cases result <;> simp [refusal?, replyOf]

theorem answer_device {d : DeviceDecl} {c next : Circuit} :
    answer c ((Declaration.device d).call t.idFor) = (none, next) ↔
      c.addDevice (t.idFor d.name.text) (t.idFor d.kind.text) d.number = .ok next :=
  refusal?_replyOf_iff

theorem answer_connection {d : ConnectionDecl} {c next : Circuit} :
    answer c ((Declaration.connection d).call t.idFor) = (none, next) ↔
      c.connect (d.first.signal t).device (d.first.signal t).pin (d.second.signal t).device
        (d.second.signal t).pin = .ok next := by
  have hpin : (d.first.signal t).pin = d.outPin.map fun w => t.idFor w.text := Option.map_map ..
  rw [hpin]
  exact refusal?_replyOf_iff

theorem answer_monitor {d : MonitorDecl} {c next : Circuit} :
    answer c ((Declaration.monitor d).call t.idFor) = (none, next) ↔
      c.addMonitor (d.watched.signal t).device (d.watched.signal t).pin = .ok next := by
  have hpin : (d.watched.signal t).pin = d.pin.map fun w => t.idFor w.text := Option.map_map ..
  rw [hpin]
  exact refusal?_replyOf_iff

/-- **Devices are taken if their names are distinct and their qualifiers fit.** -/
theorem takeAll?_devices (ht : t.HasVocabulary) {ds : List DeviceDecl}
    (hds : ∀ d ∈ ds, d.name.text ∈ t.names) (hparts : ∀ p ∈ parts, p.name ∈ t.names)
    (hnodup : (parts.map Part.name).Nodup) {last : Circuit} :
    takeAll? t.idFor (ofParts t parts [] []) (ds.map .device) = some last ↔
      (parts.map Part.name ++ ds.map (·.name.text)).Nodup ∧
        (∀ d ∈ ds, ∃ p, d.part? = some p ∧ p.kind.qualifierRule.Admits p.qualifier) ∧
        last = ofParts t (parts ++ ds.filterMap DeviceDecl.part?) [] [] := by
  induction ds generalizing parts with
  | nil => simp [takeAll?, hnodup, eq_comm]
  | cons d ds ih =>
      rw [List.map_cons, takeAll?_cons_eq_some_iff]
      simp only [answer_device, addDevice_ofParts ht hparts]
      have hrest : ∀ p, d.part? = some p → d.name.text ∉ parts.map Part.name →
          (takeAll? t.idFor (ofParts t (parts ++ [p]) [] []) (ds.map .device) = some last ↔
            (parts.map Part.name ++ d.name.text :: ds.map (·.name.text)).Nodup ∧
              (∀ d ∈ ds, ∃ p, d.part? = some p ∧ p.kind.qualifierRule.Admits p.qualifier) ∧
              last = ofParts t (parts ++ (d :: ds).filterMap DeviceDecl.part?) [] []) := by
        intro p hp hnew
        have hname := DeviceDecl.name_of_part? hp
        have hentered : ∀ q ∈ parts ++ [p], q.name ∈ t.names := by
          intro q hq
          rcases List.mem_append.mp hq with hq | hq
          · exact hparts q hq
          · obtain rfl := List.mem_singleton.mp hq
            rw [hname]
            exact hds d List.mem_cons_self
        have hnames : (parts ++ [p]).map Part.name = parts.map Part.name ++ [d.name.text] := by
          rw [List.map_append, List.map_singleton, hname]
        -- the new name keeps the names apart
        have hdistinct : (parts.map Part.name ++ [d.name.text]).Nodup :=
          List.nodup_append_comm.mp (List.nodup_cons.mpr ⟨hnew, hnodup⟩)
        have hrestNames : ∀ d ∈ ds, d.name.text ∈ t.names :=
          fun d hd => hds d (List.mem_cons_of_mem _ hd)
        rw [ih hrestNames hentered (hnames ▸ hdistinct), hnames, List.append_assoc,
          List.append_assoc, List.filterMap_cons_some hp]
        rfl
      refine ⟨?_, ?_⟩
      · intro htaken
        obtain ⟨_, ⟨hnew, p, hp, hadmits, rfl⟩, htaken⟩ := htaken
        obtain ⟨hdistinct, hfit, hlast⟩ := (hrest p hp hnew).mp htaken
        exact ⟨hdistinct, List.forall_mem_cons.mpr ⟨⟨p, hp, hadmits⟩, hfit⟩, hlast⟩
      · intro hfits
        obtain ⟨hdistinct, hfit, hlast⟩ := hfits
        obtain ⟨⟨p, hp, hadmits⟩, hfit⟩ := List.forall_mem_cons.mp hfit
        have hnew : d.name.text ∉ parts.map Part.name := by
          intro hold
          exact List.disjoint_of_nodup_append hdistinct hold List.mem_cons_self
        exact ⟨_, ⟨hnew, p, hp, hadmits, rfl⟩, (hrest p hp hnew).mpr ⟨hdistinct, hfit, hlast⟩⟩

/-- **Connections are taken if each joins an input and an output, and no two the same input.** -/
theorem takeAll?_connections (h : t.Names parts) {ds : List ConnectionDecl}
    (hcs : ∀ i ∈ parts.flatMap Part.inputs, cs.countP (·.names i) ≤ 1) {last : Circuit} :
    takeAll? t.idFor (ofParts t parts cs ms) (ds.map .connection) = some last ↔
      (∀ d ∈ ds, ∃ i ∈ parts.flatMap Part.inputs, ∃ o ∈ parts.flatMap Part.outputs, d.Joins i o) ∧
        (∀ i ∈ parts.flatMap Part.inputs, (cs ++ ds).countP (·.names i) ≤ 1) ∧
        last = ofParts t parts (cs ++ ds) ms := by
  induction ds generalizing cs with
  | nil => simpa [takeAll?, eq_comm] using fun _ => hcs
  | cons d ds ih =>
      rw [List.map_cons, takeAll?_cons_eq_some_iff, List.append_cons cs d ds]
      simp only [answer_connection, connect_ofParts h]
      have hnext : ∀ i ∈ parts.flatMap Part.inputs, ∀ o ∈ parts.flatMap Part.outputs,
          d.Joins i o → sourceIn? cs i = none →
          ∀ j ∈ parts.flatMap Part.inputs, (cs ++ [d]).countP (·.names j) ≤ 1 := by
        intro i hi o ho hd hfree j hj
        rw [List.countP_append, List.countP_singleton]
        by_cases hji : j = i
        · subst hji
          rw [sourceIn?_eq_none_iff.mp hfree, hd.names_left]
          exact Nat.le_refl 1
        · -- the other end is an output, so it is no input either
          have hjo : j ≠ o := fun heq => h.not_mem_outputs hj (heq ▸ ho)
          rw [hd.names_eq_false hji hjo]
          exact hcs j hj
      refine ⟨?_, ?_⟩
      · intro htaken
        obtain ⟨_, ⟨⟨i, hi, o, ho, hd, hfree⟩, rfl⟩, htaken⟩ := htaken
        obtain ⟨hjoin, honce, hlast⟩ := (ih (hnext i hi o ho hd hfree)).mp htaken
        exact ⟨List.forall_mem_cons.mpr ⟨⟨i, hi, o, ho, hd⟩, hjoin⟩, honce, hlast⟩
      · intro hfits
        obtain ⟨hjoin, honce, hlast⟩ := hfits
        obtain ⟨⟨i, hi, o, ho, hd⟩, hjoin⟩ := List.forall_mem_cons.mp hjoin
        -- the input is named once in all, and that is here
        have hfree : sourceIn? cs i = none := by
          have hcount := honce i hi
          rw [List.countP_append, List.countP_append, List.countP_singleton, hd.names_left,
            if_pos rfl] at hcount
          rw [sourceIn?_eq_none_iff]
          omega
        exact ⟨_, ⟨⟨i, hi, o, ho, hd, hfree⟩, rfl⟩,
          (ih (hnext i hi o ho hd hfree)).mpr ⟨hjoin, honce, hlast⟩⟩

/-- **Monitors are taken if they watch distinct outputs.** -/
theorem takeAll?_monitors (h : t.Names parts) {ds : List MonitorDecl}
    (hnodup : (ms.map MonitorDecl.watched).Nodup) {last : Circuit} :
    takeAll? t.idFor (ofParts t parts cs ms) (ds.map .monitor) = some last ↔
      (∀ d ∈ ds, d.watched ∈ parts.flatMap Part.outputs) ∧
        (ms.map MonitorDecl.watched ++ ds.map MonitorDecl.watched).Nodup ∧
        last = ofParts t parts cs (ms ++ ds) := by
  induction ds generalizing ms with
  | nil => simp [takeAll?, hnodup, eq_comm]
  | cons d ds ih =>
      rw [List.map_cons, takeAll?_cons_eq_some_iff, List.append_cons ms d ds]
      simp only [answer_monitor, addMonitor_ofParts h]
      have hwatched : (ms ++ [d]).map MonitorDecl.watched =
          ms.map MonitorDecl.watched ++ [d.watched] := by
        rw [List.map_append, List.map_singleton]
      have hnext : d.watched ∉ ms.map MonitorDecl.watched →
          ((ms ++ [d]).map MonitorDecl.watched).Nodup := by
        intro hnew
        rw [hwatched]
        exact List.nodup_append_comm.mp (List.nodup_cons.mpr ⟨hnew, hnodup⟩)
      rw [List.map_cons, List.append_cons (ms.map MonitorDecl.watched), ← hwatched]
      refine ⟨?_, ?_⟩
      · intro htaken
        obtain ⟨_, ⟨hout, hnew, rfl⟩, htaken⟩ := htaken
        obtain ⟨hall, hdistinct, hlast⟩ := (ih (hnext hnew)).mp htaken
        exact ⟨List.forall_mem_cons.mpr ⟨hout, hall⟩, hdistinct, hlast⟩
      · intro hfits
        obtain ⟨hall, hdistinct, hlast⟩ := hfits
        obtain ⟨hout, hall⟩ := List.forall_mem_cons.mp hall
        have hnew : d.watched ∉ ms.map MonitorDecl.watched := by
          have hsome := (List.nodup_append.mp hdistinct).1
          rw [hwatched] at hsome
          intro hold
          exact List.disjoint_of_nodup_append hsome hold (List.mem_singleton_self _)
        exact ⟨_, ⟨hout, hnew, rfl⟩, (ih (hnext hnew)).mpr ⟨hall, hdistinct, hlast⟩⟩

end Circuit

/-! ## The sentences that are accepted -/

namespace Sentence

variable {s : Sentence} {t : NameTable}

theorem build?_eq_some_iff_exists {β : Type} [NetworkBuilder β] {ids : String → NameId}
    {b last : β} :
    s.build? ids b = some last ↔
      ∃ b₁, NetworkBuilder.takeAll? ids b (s.devices.map .device) = some b₁ ∧
        ∃ b₂, NetworkBuilder.takeAll? ids b₁ (s.connections.map .connection) = some b₂ ∧
          NetworkBuilder.isComplete b₂ = true ∧
          NetworkBuilder.takeAll? ids b₂ (s.monitors.map .monitor) = some last := by
  simp [build?, Option.bind_eq_some_iff]

theorem names_parts (ht : t.HasVocabulary) (hs : ∀ d ∈ s.devices, d.name.text ∈ t.names)
    (hnodup : (s.devices.map (·.name.text)).Nodup) : t.Names s.parts := by
  refine ⟨ht, ?_, hnodup.sublist (DeviceDecl.names_part?_sublist _)⟩
  intro p hp
  obtain ⟨d, hd, hpart⟩ := List.mem_filterMap.mp hp
  rw [DeviceDecl.name_of_part? hpart]
  exact hs d hd

/-- **A sentence is built exactly if it is well formed, and as the circuit that it denotes.** -/
theorem build?_eq_some_iff (ht : t.HasVocabulary) (hs : ∀ d ∈ s.devices, d.name.text ∈ t.names)
    {c : Circuit} :
    s.build? t.idFor (Circuit.ofParts t [] [] []) = some c ↔ s.WellFormed ∧ c = s.circuit t := by
  have hnone : ∀ p ∈ ([] : List Part), p.name ∈ t.names := by simp
  have hzero : ∀ i ∈ s.inputs, ([] : List ConnectionDecl).countP (·.names i) ≤ 1 := by simp
  have hempty : (([] : List MonitorDecl).map MonitorDecl.watched).Nodup := List.nodup_nil
  rw [build?_eq_some_iff_exists]
  refine ⟨?_, ?_⟩
  · intro hbuilt
    obtain ⟨c₁, hdevices, c₂, hconnections, hcomplete, hmonitors⟩ := hbuilt
    obtain ⟨hnodup, hadmits, rfl⟩ :=
      (Circuit.takeAll?_devices ht hs hnone List.nodup_nil).mp hdevices
    have hnames := names_parts ht hs hnodup
    obtain ⟨hjoins, honce, rfl⟩ := (Circuit.takeAll?_connections hnames hzero).mp hconnections
    have hdriven := Circuit.isConnected_ofParts.mp hcomplete
    obtain ⟨hwatched, hdistinct, rfl⟩ :=
      (Circuit.takeAll?_monitors hnames hempty).mp hmonitors
    refine ⟨⟨hnodup, ?_, hjoins, ?_, hdistinct, hwatched⟩, rfl⟩
    · intro d hd
      exact DeviceDecl.exists_part?_iff.mp (hadmits d hd)
    · -- at most once since all are taken, at least once since the circuit is complete
      intro i hi
      have hmost : s.connections.countP (·.names i) ≤ 1 := honce i hi
      have hleast : s.connections.countP (·.names i) ≠ 0 := by
        intro hcount
        have hsome := hdriven i hi
        rw [List.nil_append, sourceIn?_eq_none_iff.mpr hcount] at hsome
        exact absurd hsome (by simp)
      omega
  · intro hformed
    obtain ⟨hs', rfl⟩ := hformed
    have hnames := names_parts ht hs hs'.nodup_devices
    have hadmits := fun d hd => DeviceDecl.exists_part?_iff.mpr (hs'.admits d hd)
    refine ⟨_, (Circuit.takeAll?_devices ht hs hnone List.nodup_nil).mpr
        ⟨hs'.nodup_devices, hadmits, rfl⟩, _,
      (Circuit.takeAll?_connections hnames hzero).mpr ⟨hs'.joins, ?_, rfl⟩, ?_,
      (Circuit.takeAll?_monitors hnames hempty).mpr
        ⟨hs'.watched, hs'.nodup_monitors, rfl⟩⟩
    · intro i hi
      exact Nat.le_of_eq (hs'.driven i hi)
    · apply Circuit.isConnected_ofParts.mpr
      intro i hi
      rw [Option.isSome_iff_ne_none, Ne, List.nil_append, sourceIn?_eq_none_iff, hs'.driven i hi]
      exact Nat.one_ne_zero

end Sentence

/-! ## The files that are accepted -/

theorem NameTable.HasVocabulary.forFile {t : NameTable} (ht : t.HasVocabulary) (ts : List Token) :
    (t.forFile ts).HasVocabulary := by
  intro name hname
  unfold NameTable.forFile
  rw [mem_names_internAll, mem_names_internAll]
  exact .inl (.inl (ht name hname))

/-- The numbers of a catalogue are those of the table, however much is entered later. -/
theorem NameTable.HasVocabulary.ofNames_forFile {t : NameTable} (ht : t.HasVocabulary)
    (ts : List Token) : Catalogue.ofNames (t.forFile ts) = Catalogue.ofNames t :=
  Catalogue.ofNames_congr fun name hname => NameTable.idFor_forFile_of_mem (ht name hname) ts

/-- The names of the devices of a sentence are entered. -/
theorem Sentence.Says.name_mem_forFile {s : Sentence} {ts : List Token} (hs : s.Says ts)
    (t : NameTable) : ∀ d ∈ s.devices, d.name.text ∈ (t.forFile ts).names := by
  intro d hd
  have hdeclared : Declaration.device d ∈ s.declarations :=
    List.mem_append_left _ (List.mem_append_left _ (List.mem_map_of_mem hd))
  exact hs.mem_forFile hdeclared (by simp [Declaration.words]) t

theorem Circuit.empty_eq_ofParts {t : NameTable} (ht : t.HasVocabulary) (ts : List Token) :
    empty t = ofParts (t.forFile ts) [] [] [] := by
  simp only [empty, ← ht.ofNames_forFile ts, ofParts, List.map_nil, List.zipIdx_nil,
    List.length_nil]

/-- What is built behind a sentence, and whether it is accepted. -/
theorem Sentence.Says.build?_eq {β : Type} [NetworkBuilder β] {s : Sentence} {ts : List Token}
    (hs : s.Says ts) {text : String} (htext : (TokenStream.ofText text).BeginsWith ts)
    (names : NameTable) (builder : β) :
    s.build? (names.forFile ts).idFor builder =
      if (parse names builder text).ok = true then some (parse names builder text).builder
      else none := by
  obtain ⟨devicesEnd, monitorEnd, mainEnd, hparse⟩ := hs.parse_eq
  rw [(s.handsOver_items _ builder devicesEnd monitorEnd).build?_eq,
    hparse names builder text htext]
  simp only [Parsed.ok, Parsed.diagnostics, List.isEmpty_iff]
  rfl

theorem Parsed.formFaults_of_ok {β : Type} {r : Parsed β} (h : r.ok = true) :
    r.formFaults = [] := by
  rw [formFaults, List.isEmpty_iff.mp h, LogicNet.formFaults_nil]

/-- **A sentence is accepted exactly if it is well formed, as the circuit that it denotes.** -/
theorem Sentence.Says.ok_and_builder_iff {s : Sentence} {ts : List Token} (hs : s.Says ts)
    {text : String} (htext : (TokenStream.ofText text).BeginsWith ts) {t : NameTable}
    (ht : t.HasVocabulary) {c : Circuit} :
    (parse t (Circuit.empty t) text).ok = true ∧ (parse t (Circuit.empty t) text).builder = c ↔
      s.WellFormed ∧ c = s.circuit (t.forFile ts) := by
  rw [← s.build?_eq_some_iff (ht.forFile ts) (hs.name_mem_forFile t),
    ← Circuit.empty_eq_ofParts ht,
    hs.build?_eq htext, Option.ite_none_right_eq_some, Option.some.injEq]

/--
**A file is accepted exactly if its symbols begin with a sentence of the grammar that is well
formed.** The circuit is then the one that the sentence denotes, where each of its names, and each
of the catalogue's, has a number of its own.
-/
theorem parse_ok_iff_wellFormed (names : NameTable) (text : String) :
    let start := Circuit.start names
    let r := parse start.1 start.2 text
    (r.ok = true ↔ ∃ (s : Sentence) (ts : List Token),
      s.Says ts ∧ (TokenStream.ofText text).BeginsWith ts ∧ s.WellFormed) ∧
    ∀ (s : Sentence) (ts : List Token), s.Says ts → (TokenStream.ofText text).BeginsWith ts →
      r.ok = true → r.builder = s.circuit r.names ∧
        (∀ name ∈ Catalogue.vocabulary, r.names.lookup? (r.names.idFor name) = some name) ∧
        ∀ d ∈ s.declarations, ∀ w ∈ d.words,
          r.names.lookup? (r.names.idFor w.text) = some w.text := by
  obtain ⟨t, ht, hstart⟩ := Circuit.start_eq names
  rw [hstart]
  intro start r
  refine ⟨⟨?_, ?_⟩, ?_⟩
  · -- an accepted file has no fault of form, so it begins with some sentence
    intro hok
    obtain ⟨s, ts, hs, hpre⟩ := Outline.says_of_formFaults_ofStream
      (Parsed.formFaults_parse t (Circuit.empty t) text ▸ Parsed.formFaults_of_ok hok)
    have htext := TokenStream.beginsWith_iff.mpr hpre
    exact ⟨s, ts, hs, htext, ((hs.ok_and_builder_iff htext ht).mp ⟨hok, rfl⟩).1⟩
  · intro hformed
    obtain ⟨s, ts, hs, htext, hformed⟩ := hformed
    exact ((hs.ok_and_builder_iff htext ht).mpr ⟨hformed, rfl⟩).1
  · intro s ts hs htext hok
    have hnames : r.names = t.forFile ts := by
      obtain ⟨devicesEnd, monitorEnd, mainEnd, hparse⟩ := hs.parse_eq
      exact congrArg Parsed.names (hparse t (Circuit.empty t) text htext)
    rw [hnames]
    refine ⟨((hs.ok_and_builder_iff htext ht).mp ⟨hok, rfl⟩).2, ?_, ?_⟩
    · intro name hname
      exact NameTable.lookup?_idFor (ht.forFile ts name hname)
    · intro d hd w hw
      exact NameTable.lookup?_idFor (hs.mem_forFile hd hw t)

set_option maxRecDepth 4000 in
/-- A flip-flop that is fed by its own output, with one connection written from the input. -/
theorem ok_flip_flop :
    let text := "DEVICES SWITCH,1=S; DTYPE=F; END CONNECTIONS F.DATA-F.QBAR; S-F.CLK; S-F.SET; " ++
      "S-F.CLEAR; END MONITOR F.Q; S; END MAIN_END ;"
    let s : Sentence :=
      ⟨[⟨⟨"SWITCH", ⟨1, 9⟩⟩, some ⟨1, ⟨1, 16⟩⟩, ⟨"S", ⟨1, 18⟩⟩⟩,
          ⟨⟨"DTYPE", ⟨1, 21⟩⟩, none, ⟨"F", ⟨1, 27⟩⟩⟩],
        [⟨⟨"F", ⟨1, 46⟩⟩, some ⟨"DATA", ⟨1, 48⟩⟩, ⟨"F", ⟨1, 53⟩⟩, ⟨"QBAR", ⟨1, 55⟩⟩⟩,
          ⟨⟨"S", ⟨1, 61⟩⟩, none, ⟨"F", ⟨1, 63⟩⟩, ⟨"CLK", ⟨1, 65⟩⟩⟩,
          ⟨⟨"S", ⟨1, 70⟩⟩, none, ⟨"F", ⟨1, 72⟩⟩, ⟨"SET", ⟨1, 74⟩⟩⟩,
          ⟨⟨"S", ⟨1, 79⟩⟩, none, ⟨"F", ⟨1, 81⟩⟩, ⟨"CLEAR", ⟨1, 83⟩⟩⟩],
        ⟨1, 90⟩, [⟨⟨"F", ⟨1, 102⟩⟩, some ⟨"Q", ⟨1, 104⟩⟩⟩, ⟨⟨"S", ⟨1, 107⟩⟩, none⟩]⟩
    let start := Circuit.start .empty
    let r := parse start.1 start.2 text
    (∃ ts, s.Says ts ∧ (TokenStream.ofText text).BeginsWith ts) ∧ r.ok = true ∧
      r.builder = s.circuit r.names := by
  intro text s start r
  have hitems : (Outline.ofStream (.ofText text)).items = s.items ⟨1, 30⟩ ⟨1, 110⟩ := by
    unfold text s
    cbv
  obtain ⟨ts, hs, htext⟩ := Sentence.says_of_items hitems
  have hok : r.ok = true := by
    unfold r start text
    cbv
  exact ⟨⟨ts, hs, htext⟩, hok, ((parse_ok_iff_wellFormed .empty text).2 s ts hs htext hok).1⟩

end LogicNet
