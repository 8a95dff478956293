import LogicNet.Proofs.Acceptance
import LogicNet.Proofs.Layout

/-!
# Sentences that fit together, with inputs left open

A sentence whose devices, connections and monitors fit together need not drive every input. A
circuit takes it all the same, and becomes the circuit that the sentence denotes; open inputs are
reported once, and nothing else is (`Sentence.HandsOver.fits`).

What is built from a text, and what kinds of diagnostics there are, depends on what its tokens say
and not on where they stand, so the sentence may be one that is said by the tokens without their
places (`Sentence.Says.parse_unplaced`).
-/

namespace LogicNet

namespace Sentence

/-- What a sentence says fits together, but inputs may be left open. -/
structure Fits (s : Sentence) : Prop where
  nodup_devices : (s.devices.map fun d => d.name.text).Nodup
  admits : ∀ d ∈ s.devices, ∃ p, d.part? = some p ∧ p.kind.qualifierRule.Admits p.qualifier
  joins : ∀ d ∈ s.connections, ∃ i ∈ s.inputs, ∃ o ∈ s.outputs, d.Joins i o
  /-- No input is named by two connections. -/
  once : ∀ i ∈ s.inputs, s.connections.countP (·.names i) ≤ 1
  nodup_monitors : (s.monitors.map MonitorDecl.watched).Nodup
  watched : ∀ d ∈ s.monitors, d.watched ∈ s.outputs

end Sentence

/-- Where all declarations are taken, nothing is reported. -/
theorem HandsOver.all_taken {β : Type} [NetworkBuilder β] {ids : String → NameId} {b last next : β}
    {ds : List Declaration} {es : List Event} (h : HandsOver ids b ds es last)
    (htaken : NetworkBuilder.takeAll? ids b ds = some next) :
    es.any Event.isRefusal = false ∧ Event.diagnostics es = [] ∧ last = next := by
  rw [h.takeAll?_eq, Option.ite_none_right_eq_some, Option.some.injEq] at htaken
  exact ⟨h.diagnostics_eq_nil_iff.mp htaken.1, htaken⟩

/-- **A sentence that fits together is built, and only open inputs are reported.** -/
theorem Sentence.HandsOver.fits {s : Sentence} {t : NameTable} {es : List Event} {last : Circuit}
    (h : s.HandsOver t.idFor (Circuit.ofParts t [] [] []) es last) (hs : s.Fits)
    (ht : t.HasVocabulary) (hentered : ∀ d ∈ s.devices, d.name.text ∈ t.names) :
    last = s.circuit t ∧ (Event.diagnostics es).map Diagnostic.kind =
      if last.isConnected then [] else [.syntactic .incompleteNetwork] := by
  have hnames := names_parts ht hentered hs.nodup_devices
  have hnone : ∀ p ∈ ([] : List Part), p.name ∈ t.names := by simp
  have hzero : ∀ i ∈ s.inputs, ([] : List ConnectionDecl).countP (·.names i) ≤ 1 := by simp
  have hempty : (([] : List MonitorDecl).map MonitorDecl.watched).Nodup := List.nodup_nil
  obtain @⟨devices, connections, monitors, b₁, b₂, _, hdevices, hconnections, hmonitors⟩ := h
  -- the devices are taken, so that none is rejected
  obtain ⟨hclean, hd, rfl⟩ := hdevices.all_taken
    ((Circuit.takeAll?_devices ht hentered hnone List.nodup_nil).mpr
      ⟨hs.nodup_devices, hs.admits, rfl⟩)
  rw [Declaration.filter_isFree hclean] at hconnections hmonitors
  obtain ⟨hclean', hc, rfl⟩ := hconnections.all_taken
    ((Circuit.takeAll?_connections hnames hzero).mpr ⟨hs.joins, hs.once, rfl⟩)
  obtain ⟨-, hm, rfl⟩ := hmonitors.all_taken
    ((Circuit.takeAll?_monitors hnames hempty).mpr ⟨hs.watched, hs.nodup_monitors, rfl⟩)
  refine ⟨rfl, ?_⟩
  have hany : (devices ++ connections).any Event.isRefusal = false := by
    rw [List.any_append, hclean, hclean']
    rfl
  have hcheck : ∀ complete, (Event.diagnostics (completeness complete s.connectionsEnd)).map
      Diagnostic.kind = if complete then [] else [.syntactic .incompleteNetwork] := by
    intro complete
    cases complete <;> rfl
  rw [hany, if_neg Bool.false_ne_true, Event.diagnostics_append, Event.diagnostics_append,
    Event.diagnostics_append, hd, hc, hm, List.append_nil, List.nil_append, List.nil_append,
    hcheck]
  -- watching signals connects nothing
  rfl

/-- **A sentence is handed over wherever its tokens stand.** -/
theorem Sentence.Says.parse_unplaced {β : Type} [NetworkBuilder β] {s : Sentence} {ts : List Token}
    (hs : s.Says ts) {text : String} (htext : (TokenStream.ofText text).unplaced.tokens = ts)
    (names : NameTable) (builder : β) :
    let r := parse names builder text
    r.names = names.forFile ts ∧
      ∃ es, s.HandsOver r.names.idFor builder es r.builder ∧
        r.diagnostics.map Diagnostic.kind = (Event.diagnostics es).map Diagnostic.kind := by
  obtain ⟨devicesEnd, monitorEnd, us, mainEnd, rfl, hread⟩ := hs.ofStream
  have houtline := hread (TokenStream.ofText text).unplaced [] (by rw [htext, List.append_nil])
  have hmoved := Outline.ofStream_moved (fun _ => .start) (TokenStream.ofText text)
  have hbefore := TokenStream.namesBefore_moved (fun _ => .start) (TokenStream.ofText text)
    (Outline.ofStream (.ofText text)).rest
  obtain ⟨hitems, hrest⟩ := Outline.mk.inj (houtline.symm.trans hmoved)
  have hnames : (TokenStream.ofText text).namesBefore (Outline.ofStream (.ofText text)).rest =
      (us ++ [(⟨.keyword .mainEnd, mainEnd⟩ : Token)]).filterMap Token.name? := by
    rw [← hbefore, ← hrest]
    exact TokenStream.namesBefore_mainEnd (htext.trans (List.append_nil _).symm)
  intro r
  have hr : r.names = names.forFile _ :=
    congrArg (names.internAll Keyword.spellings).internAll hnames
  have hover := s.handsOver_items r.names.idFor builder devicesEnd monitorEnd
  rw [hitems, Progress.steps_moved] at hover
  refine ⟨hr, _, hover, ?_⟩
  have hdiagnostics := Event.filterMap_diagnostic?_moved (fun _ => .start) r.events
  have hkinds := congrArg (List.map Diagnostic.kind) hdiagnostics
  rw [List.map_map] at hkinds
  rw [Event.diagnostics]
  exact hkinds.symm

end LogicNet
