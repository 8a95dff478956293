import LogicNet.Proofs.Delivery
import LogicNet.Proofs.Growth

/-!
# Parsing a file again

A file that was parsed into a circuit is parsed again, into the circuit and the table that the first
parse has left. Neither changes. The table holds all names of the file. The circuit refuses every
call that it was asked to take the first time (`Circuit.refused_of_mem`); what has to be shown is
that it is asked for no other.

Which calls are made depends on which devices are rejected, and those are not told by the same
answers as before. A device that was taken is now refused, but as one that is there, and so it is
not rejected; one that was refused and declared again in good order was rejected for a while, and is
not rejected at any time now. But in the end the same devices are rejected: those that were declared
and are not there (`Settled`). All devices are handed over before anything refers to one, so the end
is what counts, and the calls are the same.

Where the first parse found nothing wrong, the second reports each declaration as a repetition, and
nothing else (`parse_again`).
-/

namespace LogicNet

/-! ## Which devices are rejected -/

/-- The devices that are rejected are those that were declared and are not there. -/
def Settled (rejected : List NameId) (c : Circuit) (calls : List Call) : Prop :=
  ∀ id, id ∈ rejected ↔
    (∃ type qualifier, Call.device id type qualifier ∈ calls) ∧ c.index.lookup id = none

/-- A call for a device leaves what is known of the others. -/
theorem Call.mem_rejectedAfter_of_ne {id name : NameId} (hid : id ≠ name) {type : NameId}
    {qualifier : Option Int} {refusal : Option ErrorKind} {rejected : List NameId} :
    id ∈ (device name type qualifier).rejectedAfter rejected refusal ↔ id ∈ rejected := by
  cases refusal with
  | none => simp [rejectedAfter, hid]
  | some kind =>
      rw [rejectedAfter]
      split
      · rfl
      · simp [hid]

theorem Circuit.lookup_answer_device_of_ne {id name : NameId} (hid : id ≠ name) (c : Circuit)
    (type : NameId) (qualifier : Option Int) :
    (NetworkBuilder.answer c (.device name type qualifier)).2.index.lookup id =
      c.index.lookup id := by
  rcases c.taken_or_refuses (.device name type qualifier) with ⟨next, htaken⟩ | ⟨kind, hrefused⟩
  · obtain ⟨-, k, -, d, -, rfl⟩ := addDevice_eq_ok_iff.mp (refusal?_replyOf_iff.mp htaken)
    have hlookup : List.lookup id [(name, c.devices.length)] = none := by
      simp [List.lookup_cons, beq_eq_false_iff_ne.mpr hid]
    simp only [htaken, List.lookup_append, hlookup, Option.or_none]
  · rw [hrefused]

/-- Once it was called for, a device is rejected exactly if it is not there. -/
theorem mem_rejectedAfter_device_iff {rejected : List NameId} {c : Circuit} {past : List Call}
    (h : Settled rejected c past) (name type : NameId) (qualifier : Option Int) :
    name ∈ (Call.device name type qualifier).rejectedAfter rejected
        (NetworkBuilder.answer c (.device name type qualifier)).1 ↔
      (NetworkBuilder.answer c (.device name type qualifier)).2.index.lookup name = none := by
  rcases c.taken_or_refuses (.device name type qualifier) with ⟨next, htaken⟩ | ⟨kind, hrefused⟩
  · obtain ⟨-, k, -, d, -, rfl⟩ :=
      Circuit.addDevice_eq_ok_iff.mp (Circuit.refusal?_replyOf_iff.mp htaken)
    rw [htaken]
    simp [Call.rejectedAfter, List.lookup_append]
  · rw [hrefused]
    by_cases hthere : (c.index.lookup name).isSome = true
    · -- the device was there before, and so it was not rejected
      have hpresent : NetworkBuilder.answer c (.device name type qualifier) =
          (some (.device .devicePresent), c) := Circuit.refuses_devicePresent_iff.mpr hthere
      obtain rfl : kind = .device .devicePresent :=
        Option.some.inj (congrArg Prod.fst (hrefused.symm.trans hpresent))
      have hsome : c.index.lookup name ≠ none := Option.isSome_iff_ne_none.mp hthere
      rw [Call.rejectedAfter, if_pos rfl, h name]
      simp [hsome]
    · have hkind : kind ≠ .device .devicePresent := by
        rintro rfl
        exact hthere (Circuit.refuses_devicePresent_iff.mp hrefused)
      rw [Call.rejectedAfter, if_neg hkind]
      exact iff_of_true (List.mem_cons_self ..) (Option.not_isSome_iff_eq_none.mp hthere)

theorem settled_device {rejected : List NameId} {c : Circuit} {past : List Call}
    (h : Settled rejected c past) (name type : NameId) (qualifier : Option Int) :
    Settled ((Call.device name type qualifier).rejectedAfter rejected
        (NetworkBuilder.answer c (.device name type qualifier)).1)
      (NetworkBuilder.answer c (.device name type qualifier)).2
      (past ++ [.device name type qualifier]) := by
  intro id
  by_cases hid : id = name
  · subst hid
    have hcalled : ∃ type' qualifier',
        Call.device id type' qualifier' ∈ past ++ [.device id type qualifier] :=
      ⟨type, qualifier, by simp⟩
    rw [mem_rejectedAfter_device_iff h, and_iff_right hcalled]
  · rw [Call.mem_rejectedAfter_of_ne hid, Circuit.lookup_answer_device_of_ne hid, h id]
    simp [hid]

/-- **Preserved by every call.** -/
theorem settled_answer {rejected : List NameId} {c : Circuit} {past : List Call}
    (h : Settled rejected c past) (call : Call) :
    Settled (call.rejectedAfter rejected (NetworkBuilder.answer c call).1)
      (NetworkBuilder.answer c call).2 (past ++ [call]) := by
  have hrefers : ∀ {call : Call}, call.stage ≠ .devices → (∀ refusal,
      call.rejectedAfter rejected refusal = rejected) →
      Settled (call.rejectedAfter rejected (NetworkBuilder.answer c call).1)
        (NetworkBuilder.answer c call).2 (past ++ [call]) := by
    intro call hstage hkeep id
    have hpast : (∃ type qualifier, Call.device id type qualifier ∈ past ++ [call]) ↔
        ∃ type qualifier, Call.device id type qualifier ∈ past := by
      have hne : ∀ type qualifier, Call.device id type qualifier ≠ call :=
        fun _ _ heq => hstage (heq ▸ rfl)
      simp [hne]
    rw [hkeep, (c.later_answer hstage).index, hpast]
    exact h id
  cases call with
  | device name type qualifier => exact settled_device h name type qualifier
  | connection => exact hrefers nofun fun _ => rfl
  | monitor => exact hrefers nofun fun _ => rfl

/-! ## The calls of a run -/

/-- What is built comes devices first. -/
theorem Item.stage_buildable_sublist (items : List Item) :
    ((Item.buildable items).map Declaration.stage).Sublist (items.filterMap Item.stage?) := by
  induction items with
  | nil => exact .slnil
  | cons item items ih =>
      cases item with
      | opened b => exact ih
      | declared d => exact ih.cons_cons d.stage
      | closed b last =>
          cases b with
          | devices | monitor => exact ih
          | connections => exact ih.cons Stage.check
      | fault error symbol =>
          rw [buildable]
          split
          · exact List.nil_sublist _
          · exact ih

namespace Progress

/-- A step makes of the builder what its calls make of it, and settles who is rejected. -/
theorem settled_step (ids : String → NameId) {p : Progress Circuit} {past : List Call}
    (h : Settled p.rejected p.builder past) (item : Item) :
    (p.step ids item).2.builder = p.builder.after ((p.step ids item).1.filterMap Event.call?) ∧
      Settled (p.step ids item).2.rejected (p.step ids item).2.builder
        (past ++ (p.step ids item).1.filterMap Event.call?) := by
  have hnothing : p.builder = p.builder.after [] ∧
      Settled p.rejected p.builder (past ++ []) := by
    rw [List.append_nil]
    exact ⟨rfl, h⟩
  cases item with
  | opened b => exact hnothing
  | fault error symbol => exact hnothing
  | closed b last =>
      simp only [step, check]
      split
      · split <;> exact hnothing
      · exact hnothing
  | declared d =>
      rw [step]
      split
      · exact hnothing
      · have hcall := settled_answer h (d.call ids)
        rcases p.declare_cases ids d with
          ⟨-, hd⟩ | ⟨-, ⟨b, hb, hd⟩ | ⟨b, kind, symbol, hb, -, hd⟩⟩
        · rw [hd]
          exact hnothing
        · rw [hb] at hcall
          rw [hd]
          exact ⟨(congrArg Prod.snd hb).symm, hcall⟩
        · rw [hb] at hcall
          rw [hd]
          exact ⟨(congrArg Prod.snd hb).symm, hcall⟩

theorem settled_steps (ids : String → NameId) {p : Progress Circuit} {past : List Call}
    (h : Settled p.rejected p.builder past) (items : List Item) :
    (p.steps ids items).2.builder = p.builder.after ((p.steps ids items).1.filterMap Event.call?) ∧
      Settled (p.steps ids items).2.rejected (p.steps ids items).2.builder
        (past ++ (p.steps ids items).1.filterMap Event.call?) := by
  induction items generalizing p past with
  | nil => simpa [Circuit.after] using h
  | cons item items ih =>
      obtain ⟨hbuilder, hsettled⟩ := settled_step ids h item
      obtain ⟨hbuilder', hsettled'⟩ := ih hsettled
      rw [steps, List.filterMap_append, ← List.append_assoc]
      refine ⟨?_, hsettled'⟩
      rw [hbuilder', hbuilder, Circuit.after, Circuit.after, Circuit.after, List.foldl_append]

end Progress

/-! ## A file is parsed again -/

/-- Names that are in a table are not entered again. -/
theorem NameTable.internAll_of_subset {t : NameTable} {names : List String}
    (h : ∀ name ∈ names, name ∈ t.names) : t.internAll names = t := by
  induction names with
  | nil => rfl
  | cons name names ih =>
      rw [internAll, List.foldl_cons, intern_of_mem (h name (List.mem_cons_self ..))]
      exact ih fun x hx => h x (List.mem_cons_of_mem name hx)

theorem NameTable.internAll_again (t : NameTable) (as bs : List String) :
    ((((t.internAll as).internAll bs).internAll as).internAll bs) =
      (t.internAll as).internAll bs := by
  have has : ∀ name ∈ as, name ∈ ((t.internAll as).internAll bs).names := fun name hname =>
    mem_names_internAll.mpr (.inl (mem_names_internAll.mpr (.inr hname)))
  have hbs : ∀ name ∈ bs, name ∈ ((t.internAll as).internAll bs).names := fun name hname =>
    mem_names_internAll.mpr (.inr hname)
  rw [internAll_of_subset has, internAll_of_subset hbs]

/-- Whoever parses a text again enters no name. -/
theorem names_parse_again {β : Type} [NetworkBuilder β] (names : NameTable) (builder other : β)
    (text : String) :
    (parse (parse names builder text).names other text).names =
      (parse names builder text).names :=
  NameTable.internAll_again names _ _

/-- A device refers to no other, so it is handed over whoever is rejected. -/
theorem mem_calls_device_iff {ids : String → NameId} {rejected : NameId → Bool}
    {ds : List Declaration} {id type : NameId} {qualifier : Option Int} :
    Call.device id type qualifier ∈ (ds.filter (·.isFree ids rejected)).map (·.call ids) ↔
      Call.device id type qualifier ∈ ds.map (·.call ids) := by
  refine ⟨fun h => (List.filter_sublist.map _).mem h, fun h => ?_⟩
  obtain ⟨d, hd, hcall⟩ := List.mem_map.mp h
  refine List.mem_map.mpr ⟨d, List.mem_filter.mpr ⟨hd, ?_⟩, hcall⟩
  cases d with
  | device x => rfl
  | connection x => cases hcall
  | monitor x => cases hcall

/--
**Calls made again are refused.** The same devices are rejected as before, so the calls are the
same, and each of them is refused.
-/
theorem Circuit.after_again {ids : String → NameId} {ds : List Declaration}
    (hds : DevicesFirst (ds.map (·.call ids))) {c built again : Circuit}
    {rejected rejected' : List NameId} {calls calls' : List Call}
    (hcalls : calls = (ds.filter (·.isFree ids (· ∈ rejected))).map (·.call ids))
    (hbuilt : built = c.after calls) (hsettled : Settled rejected built calls)
    (hcalls' : calls' = (ds.filter (·.isFree ids (· ∈ rejected'))).map (·.call ids))
    (hagain : again = built.after calls') (hsettled' : Settled rejected' again calls') :
    again = built := by
  have hfirst : DevicesFirst calls := by
    rw [hcalls]
    exact hds.sublist (List.filter_sublist.map _)
  have hrefused : ∀ call ∈ calls, ∃ kind, built.Refuses call kind :=
    fun call hcall => hbuilt ▸ refused_of_mem hfirst hcall
  -- devices are called for both times, whoever is rejected by then
  have hdevice : ∀ {id type qualifier},
      Call.device id type qualifier ∈ calls' ↔ Call.device id type qualifier ∈ calls := by
    intro id type qualifier
    rw [hcalls, hcalls', mem_calls_device_iff, mem_calls_device_iff]
  have hindex : again.index = built.index := by
    rw [hagain]
    refine index_after fun call hcall hstage => ?_
    cases call with
    | device id type qualifier => exact hrefused _ (hdevice.mp hcall)
    | connection => cases hstage
    | monitor => cases hstage
  have hrejected : (fun id => decide (id ∈ rejected')) = fun id => decide (id ∈ rejected) := by
    funext id
    rw [decide_eq_decide, hsettled' id, hsettled id, hindex]
    simp only [hdevice]
  rw [hrejected, ← hcalls] at hcalls'
  rw [hagain, hcalls']
  exact after_eq_self hrefused

/-- **Items that were dealt with are dealt with again without a change.** -/
theorem Progress.builder_steps_again (ids : String → NameId) {items : List Item}
    (hdevices : (items.filterMap Item.stage?).Pairwise fun a b => b = .devices → a = .devices)
    (c : Circuit) :
    let built := ((start c).steps ids items).2.builder
    ((start built).steps ids items).2.builder = built := by
  intro built
  have hstart : ∀ c : Circuit, Settled (start c).rejected (start c).builder [] := by
    intro c id
    simp [start]
  have hfirst : DevicesFirst ((Item.buildable items).map (·.call ids)) := by
    have hstages := hdevices.sublist (Item.stage_buildable_sublist items)
    rw [List.pairwise_map] at hstages
    refine List.pairwise_map.mpr (hstages.imp ?_)
    intro a b h
    simpa only [Declaration.stage_call] using h
  obtain ⟨hbuilt, hsettled⟩ := settled_steps ids (hstart c) items
  obtain ⟨hagain, hsettled'⟩ := settled_steps ids (hstart built) items
  exact Circuit.after_again hfirst (calls_steps (start c) ids hdevices) hbuilt hsettled
    (calls_steps (start built) ids hdevices) hagain hsettled'

/-! ## What is reported the second time -/

/-- The diagnostic for a declaration that was taken before. -/
def Declaration.repetition : Declaration → Diagnostic
  | .device d => ⟨.device .devicePresent, d.name.symbol⟩
  | .connection d => ⟨.connection .inputConnected, d.inPin.symbol⟩
  | .monitor d => ⟨.monitor .monitorPresent, d.device.symbol⟩

theorem Declaration.Blames.eq_repetition {ids : String → NameId} {d : Declaration}
    {kind : ErrorKind} {symbol : Symbol} (h : d.Blames kind symbol)
    (hkind : kind = (d.call ids).repetition) : (⟨kind, symbol⟩ : Diagnostic) = d.repetition := by
  cases h <;> simp_all [Declaration.call, Call.repetition, Declaration.repetition]

/-- Declarations that are refused as repetitions are reported one by one. -/
theorem HandsOver.repetition {ids : String → NameId} {c last : Circuit} {ds : List Declaration}
    {es : List Event} (h : HandsOver ids c ds es last)
    (hds : ∀ d ∈ ds, c.Refuses (d.call ids) (d.call ids).repetition) :
    last = c ∧ Event.diagnostics es = ds.map Declaration.repetition ∧
      ∀ id, es.filterMap (Event.answerAbout? id) = [] := by
  induction h with
  | nil => exact ⟨rfl, rfl, fun _ => rfl⟩
  | taken htaken _ _ =>
      have hrefused := hds _ (List.mem_cons_self ..)
      rw [Circuit.Refuses, htaken] at hrefused
      cases hrefused
  | @refused c next last d ds es kind symbol hanswer hblames _ ih =>
      have hrefused : NetworkBuilder.answer c (d.call ids) = (some (d.call ids).repetition, c) :=
        hds d (List.mem_cons_self ..)
      rw [hanswer] at hrefused
      obtain ⟨hkind, rfl⟩ := Prod.mk.inj hrefused
      have hkind := Option.some.inj hkind
      obtain ⟨hlast, hdiagnostics, hrejected⟩ := ih fun x hx => hds x (List.mem_cons_of_mem d hx)
      refine ⟨hlast, ?_, fun id => ?_⟩
      · rw [List.map_cons, ← hblames.eq_repetition hkind, ← hdiagnostics]
        rfl
      · rw [List.filterMap_cons_none, List.filterMap_cons_none rfl, hrejected id]
        cases d <;> simp [Event.answerAbout?, Declaration.call, hkind, Call.repetition]

/-- Where all is there already, a sentence is reported declaration by declaration. -/
theorem Sentence.HandsOver.repetition {s : Sentence} {ids : String → NameId} {c last : Circuit}
    {es : List Event} (h : s.HandsOver ids c es last)
    (hs : ∀ d ∈ s.declarations, c.Refuses (d.call ids) (d.call ids).repetition)
    (hcomplete : c.isConnected = true) :
    Event.diagnostics es = s.declarations.map Declaration.repetition := by
  obtain @⟨devices, connections, monitors, b₁, b₂, _, hdevices, hconnections, hmonitors⟩ := h
  simp only [Sentence.declarations, List.mem_append] at hs
  obtain ⟨rfl, hdiagnostics, hrejected⟩ := hdevices.repetition fun d hd => hs d (.inl (.inl hd))
  -- no device is rejected, so nothing is passed over
  have hfree : ∀ ds : List Declaration,
      ds.filter (·.isFree ids (Event.isRejected devices)) = ds := by
    intro ds
    refine List.filter_eq_self.mpr fun d _ => ?_
    simp [Declaration.isFree, Event.isRejected, hrejected]
  rw [hfree] at hconnections hmonitors
  obtain ⟨rfl, hdiagnostics', -⟩ := hconnections.repetition fun d hd => hs d (.inl (.inr hd))
  obtain ⟨rfl, hdiagnostics'', -⟩ := hmonitors.repetition fun d hd => hs d (.inr hd)
  have hcheck : Event.diagnostics (if (devices ++ connections).any Event.isRefusal then []
      else completeness (NetworkBuilder.isComplete last) s.connectionsEnd) = [] := by
    have hcomplete : NetworkBuilder.isComplete last = true := hcomplete
    rw [hcomplete]
    split <;> rfl
  simp only [Event.diagnostics_append, hdiagnostics, hdiagnostics', hdiagnostics'', hcheck,
    List.append_nil, Sentence.declarations, List.map_append]

theorem Sentence.devicesFirst (s : Sentence) (ids : String → NameId) :
    DevicesFirst (s.declarations.map (·.call ids)) := by
  have hall : ∀ {α : Type} (xs : List α), xs.Pairwise fun _ _ => True :=
    fun _ => List.pairwise_of_forall fun _ _ => trivial
  simp [DevicesFirst, declarations, List.pairwise_append, List.pairwise_map, Declaration.call,
    Call.stage, hall]

open NetworkBuilder

theorem NetworkBuilder.takeAll?_append {β : Type} [NetworkBuilder β] {ids : String → NameId}
    {b mid last : β} {ds ds' : List Declaration} (h : takeAll? ids b ds = some mid)
    (h' : takeAll? ids mid ds' = some last) : takeAll? ids b (ds ++ ds') = some last := by
  induction ds generalizing b with
  | nil =>
      obtain rfl := Option.some.inj h
      exact h'
  | cons d ds ih =>
      obtain ⟨next, htaken, hrest⟩ := takeAll?_cons_eq_some_iff.mp h
      exact takeAll?_cons_eq_some_iff.mpr ⟨next, htaken, ih hrest⟩

/-- A circuit that has taken a sentence refuses all of it as repetitions, and is complete. -/
theorem Sentence.repetition_of_build? {s : Sentence} {ids : String → NameId} {c last : Circuit}
    (h : s.build? ids c = some last) :
    (∀ d ∈ s.declarations, last.Refuses (d.call ids) (d.call ids).repetition) ∧
      last.isConnected = true := by
  obtain ⟨b₁, hdevices, b₂, hconnections, hcomplete, hmonitors⟩ :=
    Sentence.build?_eq_some_iff_exists.mp h
  refine ⟨?_, ?_⟩
  · have hall := takeAll?_append (takeAll?_append hdevices hconnections) hmonitors
    exact Circuit.repetition_of_takeAll? hall (s.devicesFirst ids)
  · -- monitors leave the inputs as they are
    have hlater : b₂.Later last := by
      rw [Circuit.eq_after_of_takeAll? hmonitors]
      refine b₂.later_after fun call hcall => ?_
      obtain ⟨d, hd, rfl⟩ := List.mem_map.mp hcall
      obtain ⟨m, -, rfl⟩ := List.mem_map.mp hd
      exact nofun
    exact hlater.isConnected hcomplete

/--
**Parsing a file again changes nothing.** Whatever the text, the table and the circuit are, a second
parse leaves both as the first one left them, and finds the same faults of form. If nothing was
wrong the first time, each declaration of the file is now reported as a repetition, in order, and
nothing else is.
-/
theorem parse_again (names : NameTable) (c : Circuit) (text : String) :
    let r := parse names c text
    let again := parse r.names r.builder text
    again.builder = r.builder ∧ again.names = r.names ∧ again.formFaults = r.formFaults ∧
      (r.ok = true → ∃ (s : Sentence) (ts : List Token), s.Says ts ∧
        (TokenStream.ofText text).BeginsWith ts ∧
        again.diagnostics = s.declarations.map Declaration.repetition) := by
  intro r again
  have hnames : again.names = r.names := names_parse_again names c r.builder text
  refine ⟨?_, hnames, ?_, ?_⟩
  · have hagain : again.builder =
        ((Progress.start r.builder).steps again.names.idFor
          (Outline.ofStream (.ofText text)).items).2.builder := rfl
    -- no name is new, so the declarations stand for the same calls
    rw [hagain, hnames]
    exact Progress.builder_steps_again r.names.idFor (Outline.devices_first _) c
  · exact (Parsed.formFaults_parse _ _ _).trans (Parsed.formFaults_parse _ _ _).symm
  · intro hok
    obtain ⟨s, ts, hs, hpre⟩ := Outline.says_of_formFaults_ofStream
      (Parsed.formFaults_parse names c text ▸ Parsed.formFaults_of_ok hok)
    have htext := TokenStream.beginsWith_iff.mpr hpre
    have hbuild := hs.build?_eq htext names c
    have hforFile : r.names = names.forFile ts := by
      obtain ⟨devicesEnd, monitorEnd, mainEnd, hparse⟩ := hs.parse_eq
      exact congrArg Parsed.names (hparse names c text htext)
    rw [if_pos hok, ← hforFile] at hbuild
    obtain ⟨hrefused, hcomplete⟩ := Sentence.repetition_of_build? hbuild
    have hover := (parse_handsOver r.names r.builder hs htext).1
    refine ⟨s, ts, hs, htext, hover.repetition ?_ hcomplete⟩
    rw [show (parse r.names r.builder text).names = r.names from hnames]
    exact hrefused

set_option maxRecDepth 4000 in
/-- A file that was accepted is reported in full when it is parsed again. -/
theorem parse_again_switch :
    let text := "DEVICES SWITCH,1=S; AND,1=A; END CONNECTIONS S-A.I1; END MONITOR A; END MAIN_END"
    let start := Circuit.start .empty
    let r := parse start.1 start.2 text
    let again := parse r.names r.builder text
    r.ok = true ∧ again.builder = r.builder ∧
      again.diagnostics = [⟨.device .devicePresent, .token ⟨.name "S", ⟨1, 18⟩⟩⟩,
        ⟨.device .devicePresent, .token ⟨.name "A", ⟨1, 27⟩⟩⟩,
        ⟨.connection .inputConnected, .token ⟨.name "I1", ⟨1, 50⟩⟩⟩,
        ⟨.monitor .monitorPresent, .token ⟨.name "A", ⟨1, 66⟩⟩⟩] := by
  intro text start r again
  have hitems : (Outline.ofStream (.ofText text)).items =
      Sentence.items ⟨[⟨⟨"SWITCH", ⟨1, 9⟩⟩, some ⟨1, ⟨1, 16⟩⟩, ⟨"S", ⟨1, 18⟩⟩⟩,
          ⟨⟨"AND", ⟨1, 21⟩⟩, some ⟨1, ⟨1, 25⟩⟩, ⟨"A", ⟨1, 27⟩⟩⟩],
        [⟨⟨"S", ⟨1, 46⟩⟩, none, ⟨"A", ⟨1, 48⟩⟩, ⟨"I1", ⟨1, 50⟩⟩⟩], ⟨1, 54⟩,
        [⟨⟨"A", ⟨1, 66⟩⟩, none⟩]⟩ ⟨1, 30⟩ ⟨1, 69⟩ := by
    unfold text
    cbv
  have hok : r.ok = true := by
    unfold r start text
    cbv
  obtain ⟨hbuilder, -, -, hagain⟩ := parse_again start.1 start.2 text
  obtain ⟨s, ts, hs, htext, hdiagnostics⟩ := hagain hok
  -- the text is read as one sentence only
  obtain ⟨devicesEnd, monitorEnd, us, mainEnd, -, hread⟩ := hs.ofStream
  obtain ⟨rest, hrest⟩ := TokenStream.beginsWith_iff.mp htext
  have hread' : (Outline.ofStream (.ofText text)).items = s.items devicesEnd monitorEnd := by
    rw [hread _ rest hrest.symm]
  obtain rfl := Sentence.items_inj (hread'.symm.trans hitems)
  exact ⟨hok, hbuilder, hdiagnostics⟩

end LogicNet
