import LogicNet.Proofs.Renaming
import LogicNet.Proofs.RoundTrip

/-!
# Only the identity of device names matters

Names of devices, of types and of pins stand in one table and share their numbers, so that a device
may be called `AND` or `I1`. It makes no difference: a file whose devices have other names is parsed
to the same diagnostics and, up to those names, to the same circuit.

Two sentences are alike if they are so word by word, where a `Likeness` says when words are: one way
for the words in the place of a device, another for types and pins. Such sentences have their words
at the same places (`Sentence.Says.paired`), which is how places of two texts correspond.

The two runs are compared under an exchange of numbers (`Progress.InStep`), step by step. A device
has the number of its other name in the other table. For a type, all that counts is the kind that
the catalogue takes it for. A label in the place of a pin is one that some kind of device has, and
then it was entered before either file was read and has one number in both, or it is not, and then
it is no pin of any device in either (`Circuit.Consistent.samePin`), though it may well be the name
of a device.
-/

namespace LogicNet

open Text (Position)

/-! ## Sentences that are alike -/

/-- What two sentences have in common, word by word. -/
structure Likeness where
  /-- Two words in the place of a device. -/
  device : Word → Word → Prop
  /-- Two words in the place of a type or of a pin. -/
  label : Word → Word → Prop
  number : Numeral → Numeral → Prop

structure DeviceDecl.Alike (l : Likeness) (d d' : DeviceDecl) : Prop where
  kind : l.label d.kind d'.kind
  qualifier : Option.Rel l.number d.qualifier d'.qualifier
  name : l.device d.name d'.name

structure ConnectionDecl.Alike (l : Likeness) (d d' : ConnectionDecl) : Prop where
  outDevice : l.device d.outDevice d'.outDevice
  outPin : Option.Rel l.label d.outPin d'.outPin
  inDevice : l.device d.inDevice d'.inDevice
  inPin : l.label d.inPin d'.inPin

structure MonitorDecl.Alike (l : Likeness) (d d' : MonitorDecl) : Prop where
  device : l.device d.device d'.device
  pin : Option.Rel l.label d.pin d'.pin

/-- Two declarations of one form, alike word by word. -/
inductive Declaration.Alike (l : Likeness) : Declaration → Declaration → Prop
  | device {d d' : DeviceDecl} (h : d.Alike l d') : Alike l (.device d) (.device d')
  | connection {d d' : ConnectionDecl} (h : d.Alike l d') : Alike l (.connection d) (.connection d')
  | monitor {d d' : MonitorDecl} (h : d.Alike l d') : Alike l (.monitor d) (.monitor d')

/-- Two sentences of one form, alike word by word. -/
structure Sentence.Alike (l : Likeness) (s s' : Sentence) : Prop where
  devices : List.Forall₂ (Declaration.Alike l) (s.devices.map .device) (s'.devices.map .device)
  connections : List.Forall₂ (Declaration.Alike l) (s.connections.map .connection)
    (s'.connections.map .connection)
  monitors : List.Forall₂ (Declaration.Alike l) (s.monitors.map .monitor)
    (s'.monitors.map .monitor)

/-- The words of a declaration in the place of a device. -/
def Declaration.deviceWords : Declaration → List Word
  | .device d => [d.name]
  | .connection d => [d.outDevice, d.inDevice]
  | .monitor d => [d.device]

/-- The names of a sentence in the place of a device. -/
def Sentence.deviceNames (s : Sentence) : List String :=
  s.declarations.flatMap fun d => d.deviceWords.map Word.text

namespace Likeness

/-- Devices have other names, and everything else is the same. Where it stands is left open. -/
def renames (ρ : String → String) : Likeness where
  device w w' := w'.text = ρ w.text
  label w w' := w'.text = w.text
  number n n' := n'.value = n.value

/-- Devices that are alike and have one of the names. -/
def among (l : Likeness) (xs : List String) : Likeness :=
  { l with device := fun w w' => l.device w w' ∧ w.text ∈ xs }

/-- Words that are alike and stand where `K` says. -/
def standing (l : Likeness) (K : Token → Token → Prop) : Likeness where
  device w w' := l.device w w' ∧ K w.token w'.token
  label w w' := l.label w w' ∧ K w.token w'.token
  number n n' := l.number n n' ∧ K n.token n'.token

/-- Whatever is alike in one way is so in another. -/
structure Le (l m : Likeness) : Prop where
  device : ∀ w w', l.device w w' → m.device w w'
  label : ∀ w w', l.label w w' → m.label w w'
  number : ∀ n n', l.number n n' → m.number n n'

theorem standing_le (l : Likeness) {K K' : Token → Token → Prop}
    (h : ∀ t t', K t t' → K' t t') : (l.standing K).Le (l.standing K') where
  device := fun _ _ hw => ⟨hw.1, h _ _ hw.2⟩
  label := fun _ _ hw => ⟨hw.1, h _ _ hw.2⟩
  number := fun _ _ hn => ⟨hn.1, h _ _ hn.2⟩

end Likeness

section Alike

variable {l m : Likeness} {d d' : Declaration}

theorem rel_imp {α : Type} {r r' : α → α → Prop} (h : ∀ x y, r x y → r' x y) {x y : Option α}
    (hxy : Option.Rel r x y) : Option.Rel r' x y := by
  cases hxy with
  | none => exact .none
  | some hxy => exact .some (h _ _ hxy)

theorem Declaration.Alike.mono (h : d.Alike l d') (hle : l.Le m) : d.Alike m d' := by
  cases h with
  | device h =>
      exact .device ⟨hle.label _ _ h.kind, rel_imp hle.number h.qualifier, hle.device _ _ h.name⟩
  | connection h =>
      exact .connection ⟨hle.device _ _ h.outDevice, rel_imp hle.label h.outPin,
        hle.device _ _ h.inDevice, hle.label _ _ h.inPin⟩
  | monitor h => exact .monitor ⟨hle.device _ _ h.device, rel_imp hle.label h.pin⟩

theorem Declaration.Alike.among (h : d.Alike l d') {xs : List String}
    (hxs : ∀ w ∈ d.deviceWords, w.text ∈ xs) : d.Alike (l.among xs) d' := by
  cases h with
  | device h => exact .device ⟨h.kind, h.qualifier, h.name, hxs _ (by simp [deviceWords])⟩
  | connection h =>
      exact .connection ⟨⟨h.outDevice, hxs _ (by simp [deviceWords])⟩, h.outPin,
        ⟨h.inDevice, hxs _ (by simp [deviceWords])⟩, h.inPin⟩
  | monitor h => exact .monitor ⟨⟨h.device, hxs _ (by simp [deviceWords])⟩, h.pin⟩

theorem Declaration.Alike.map_deviceWords {ρ : String → String} (h : d.Alike (.renames ρ) d') :
    d'.deviceWords.map Word.text = d.deviceWords.map fun w => ρ w.text := by
  cases h with
  | device h => exact congrArg (fun x => [x]) h.name
  | connection h => exact congrArg₂ (fun x y => [x, y]) h.outDevice h.inDevice
  | monitor h => exact congrArg (fun x => [x]) h.device

theorem Sentence.Alike.declarations {s s' : Sentence} (h : s.Alike l s') :
    List.Forall₂ (Declaration.Alike l) s.declarations s'.declarations :=
  List.rel_append (List.rel_append h.devices h.connections) h.monitors

/-- The devices of a sentence with other names have the other names. -/
theorem Sentence.Alike.deviceNames_eq {s s' : Sentence} {ρ : String → String}
    (h : s.Alike (.renames ρ) s') : s'.deviceNames = s.deviceNames.map ρ := by
  have hds := h.declarations
  unfold Sentence.deviceNames
  generalize s.declarations = ds at hds
  generalize s'.declarations = ds' at hds
  induction hds with
  | nil => rfl
  | cons hd _ ih => simp [hd.map_deviceWords, ih, Function.comp_def]

theorem Declaration.deviceWords_subset (d : Declaration) : d.deviceWords ⊆ d.words := by
  cases d <;> simp [deviceWords, words]

/-- The names of the devices are entered when the file is read. -/
theorem Sentence.Says.deviceNames_subset {s : Sentence} {ts : List Token} (h : s.Says ts)
    (t : NameTable) : s.deviceNames ⊆ (t.forFile ts).names := by
  intro x hx
  obtain ⟨d, hd, hx⟩ := List.mem_flatMap.mp hx
  obtain ⟨w, hw, rfl⟩ := List.mem_map.mp hx
  exact h.mem_forFile hd (d.deviceWords_subset hw) t

/-- Where sentences are alike, the words in the place of a device are among its device names. -/
theorem Sentence.Alike.among {s s' : Sentence} (h : s.Alike l s') :
    s.Alike (l.among s.deviceNames) s' := by
  have hnames : ∀ d ∈ s.declarations, ∀ w ∈ d.deviceWords, w.text ∈ s.deviceNames :=
    fun d hd w hw => List.mem_flatMap.mpr ⟨d, hd, List.mem_map_of_mem hw⟩
  have hall : ∀ {ds ds' : List Declaration}, ds ⊆ s.declarations →
      List.Forall₂ (Declaration.Alike l) ds ds' →
      List.Forall₂ (Declaration.Alike (l.among s.deviceNames)) ds ds' := by
    intro ds ds' hsub hds
    have hboth := (List.forall₂_and_left ds ds').mpr ⟨fun d hd => hsub hd, hds⟩
    exact hboth.imp fun d d' hd => hd.2.among (hnames d hd.1)
  refine ⟨hall ?_ h.devices, hall ?_ h.connections, hall ?_ h.monitors⟩ <;>
    intro d hd <;> simp only [Sentence.declarations, List.mem_append]
  · exact .inl (.inl hd)
  · exact .inl (.inr hd)
  · exact .inr hd

end Alike

/-! ## Words in the same place -/

/-- Two tokens that stand at the same place of two stretches. -/
def Paired (ts ts' : List Token) (t t' : Token) : Prop := (t, t') ∈ ts.zip ts'

section Paired

variable {l : Likeness} {b : Block} {ts ts' us us' : List Token} {t t' : Token}

theorem Paired.append_left (h : Paired us us' t t') (hlength : ts.length = ts'.length) :
    Paired (ts ++ us) (ts' ++ us') t t' := by
  rw [Paired, List.zip_append hlength]
  exact List.mem_append_right _ h

theorem Paired.append_right (h : Paired ts ts' t t') (hlength : ts.length = ts'.length) :
    Paired (ts ++ us) (ts' ++ us') t t' := by
  rw [Paired, List.zip_append hlength]
  exact List.mem_append_left _ h

/-- The words of two declarations that are alike stand at the same places. -/
theorem Block.Declares.paired {d d' : Declaration} (h : b.Declares d us) (h' : b.Declares d' us')
    (hd : d.Alike l d') :
    us.length = us'.length ∧ d.Alike (l.standing (Paired us us')) d' := by
  cases hd with
  | @device d d' hd =>
      obtain ⟨kind', qualifier', name'⟩ := d'
      obtain ⟨hkind, hqualifier, hname⟩ := hd
      cases h with
      | device =>
          cases hqualifier
          cases h'
          exact ⟨rfl, .device ⟨⟨hkind, by simp [Paired]⟩, .none, hname, by simp [Paired]⟩⟩
      | qualifiedDevice =>
          cases hqualifier with | some hn =>
          cases h'
          exact ⟨rfl, .device ⟨⟨hkind, by simp [Paired]⟩, .some ⟨hn, by simp [Paired]⟩, hname,
            by simp [Paired]⟩⟩
  | @connection d d' hd =>
      obtain ⟨outDevice', outPin', inDevice', inPin'⟩ := d'
      obtain ⟨hout, hpin, hin, hinPin⟩ := hd
      cases h with
      | connection =>
          cases hpin
          cases h'
          exact ⟨rfl, .connection ⟨⟨hout, by simp [Paired]⟩, .none, ⟨hin, by simp [Paired]⟩,
            hinPin, by simp [Paired]⟩⟩
      | pinConnection =>
          cases hpin with | some hpin =>
          cases h'
          exact ⟨rfl, .connection ⟨⟨hout, by simp [Paired]⟩, .some ⟨hpin, by simp [Paired]⟩,
            ⟨hin, by simp [Paired]⟩, hinPin, by simp [Paired]⟩⟩
  | @monitor d d' hd =>
      obtain ⟨device', pin'⟩ := d'
      obtain ⟨hdevice, hpin⟩ := hd
      cases h with
      | monitor =>
          cases hpin
          cases h'
          exact ⟨rfl, .monitor ⟨⟨hdevice, by simp [Paired]⟩, .none⟩⟩
      | pinMonitor =>
          cases hpin with | some hpin =>
          cases h'
          exact ⟨rfl, .monitor ⟨⟨hdevice, by simp [Paired]⟩, .some ⟨hpin, by simp [Paired]⟩⟩⟩

theorem Block.many_paired {ds ds' : List Declaration} (h : Form.Many b.Declares ds us)
    (h' : Form.Many b.Declares ds' us') (hds : List.Forall₂ (Declaration.Alike l) ds ds') :
    us.length = us'.length ∧
      List.Forall₂ (Declaration.Alike (l.standing (Paired us us'))) ds ds' := by
  induction h generalizing ds' us' with
  | nil =>
      cases hds
      cases h'
      exact ⟨rfl, .nil⟩
  | @cons d ds ts us hd _ ih =>
      cases hds with | cons halike hds =>
      cases h' with | cons hd' h' =>
      obtain ⟨hlength, hfirst⟩ := hd.paired hd' halike
      obtain ⟨hlength', hothers⟩ := ih h' hds
      refine ⟨by simp [hlength, hlength'], .cons ?_ (hothers.imp fun _ _ hd => ?_)⟩
      · exact hfirst.mono (l.standing_le fun _ _ ht => ht.append_right hlength)
      · exact hd.mono (l.standing_le fun _ _ ht => ht.append_left hlength)

theorem Block.Lists.paired {ds ds' : List Declaration} {last last' : Position}
    (h : b.Lists ds last us) (h' : b.Lists ds' last' us')
    (hds : List.Forall₂ (Declaration.Alike l) ds ds') :
    us.length = us'.length ∧
      List.Forall₂ (Declaration.Alike (l.standing (Paired us us'))) ds ds' ∧
      Paired us us' ⟨.keyword .endBlock, last⟩ ⟨.keyword .endBlock, last'⟩ := by
  obtain @⟨p, ts, hts⟩ := h
  obtain @⟨p', ts', hts'⟩ := h'
  obtain ⟨hlength, halike⟩ := Block.many_paired hts hts' hds
  have hkeyword : ∀ {t t'}, Paired (ts ++ [⟨.keyword .endBlock, last⟩])
      (ts' ++ [⟨.keyword .endBlock, last'⟩]) t t' →
      Paired (⟨.keyword b.keyword, p⟩ :: (ts ++ [⟨.keyword .endBlock, last⟩]))
        (⟨.keyword b.keyword, p'⟩ :: (ts' ++ [⟨.keyword .endBlock, last'⟩])) t t' :=
    fun ht => List.mem_cons_of_mem _ ht
  refine ⟨by simp [hlength], halike.imp fun _ _ hd => ?_, hkeyword ?_⟩
  · exact hd.mono (l.standing_le fun _ _ ht => hkeyword (ht.append_right hlength))
  · exact .append_left (by simp [Paired]) hlength

/-- **The words of two sentences that are alike stand at the same places.** -/
theorem Sentence.Says.paired {s s' : Sentence} (h : s.Says ts) (h' : s'.Says ts')
    (hs : s.Alike l s') :
    s.Alike (l.standing (Paired ts ts')) s' ∧
      Paired ts ts' ⟨.keyword .endBlock, s.connectionsEnd⟩
        ⟨.keyword .endBlock, s'.connectionsEnd⟩ := by
  obtain @⟨ds, cs, ms, devicesEnd, monitorEnd, mainEnd, hds, hcs, hms⟩ := h
  obtain @⟨ds', cs', ms', devicesEnd', monitorEnd', mainEnd', hds', hcs', hms'⟩ := h'
  obtain ⟨hlength, hdevices, -⟩ := hds.paired hds' hs.devices
  obtain ⟨hlength', hconnections, hend⟩ := hcs.paired hcs' hs.connections
  obtain ⟨hlength'', hmonitors, -⟩ := hms.paired hms' hs.monitors
  have hzip : ∀ end₁ end₂ : Token, (ds ++ cs ++ ms ++ [end₁]).zip (ds' ++ cs' ++ ms' ++ [end₂]) =
      ds.zip ds' ++ cs.zip cs' ++ ms.zip ms' ++ [(end₁, end₂)] := by
    intro end₁ end₂
    rw [List.zip_append (by simp [hlength, hlength', hlength'']),
      List.zip_append (by simp [hlength, hlength']), List.zip_append hlength]
    rfl
  refine ⟨⟨hdevices.imp fun _ _ hd => hd.mono (l.standing_le fun _ _ ht => ?_),
    hconnections.imp fun _ _ hd => hd.mono (l.standing_le fun _ _ ht => ?_),
    hmonitors.imp fun _ _ hd => hd.mono (l.standing_le fun _ _ ht => ?_)⟩, ?_⟩ <;>
    simp only [Paired, hzip, List.mem_append]
  · exact .inl (.inl (.inr hend))
  · exact .inl (.inl (.inl ht))
  · exact .inl (.inl (.inr ht))
  · exact .inl (.inr ht)

end Paired

/-! ## The two runs -/

/-- Two items that are alike; where a block ends counts only if it is that of the connections. -/
inductive Item.Alike (l : Likeness) (K : Token → Token → Prop) : Item → Item → Prop
  | opened (b : Block) : Alike l K (.opened b) (.opened b)
  | declared {d d' : Declaration} (h : d.Alike l d') : Alike l K (.declared d) (.declared d')
  | closed (b : Block) {t t' : Token} (h : b = .connections → K t t') :
      Alike l K (.closed b t) (.closed b t')

/-- Two tokens that stand where `K` says. -/
def Symbol.Related (K : Token → Token → Prop) (x y : Symbol) : Prop :=
  ∃ t t', x = .token t ∧ y = .token t' ∧ K t t'

/-- Two diagnostics of one kind, at symbols that stand where `K` says. -/
structure Diagnostic.Alike (K : Token → Token → Prop) (d d' : Diagnostic) : Prop where
  kind : d'.kind = d.kind
  anchor : Symbol.Related K d.anchor d'.anchor

section Runs

variable {l : Likeness} {K : Token → Token → Prop} {s s' : Sentence} {d d' : Declaration}

theorem Sentence.alike_blockItems {b : Block} {ds ds' : List Declaration} {last last' : Position}
    (h : List.Forall₂ (Declaration.Alike l) ds ds')
    (hend : b = .connections → K ⟨.keyword .endBlock, last⟩ ⟨.keyword .endBlock, last'⟩) :
    List.Forall₂ (Item.Alike l K) (blockItems b ds last) (blockItems b ds' last') := by
  refine .cons (.opened b) (List.rel_append ?_ (.cons (.closed b hend) .nil))
  rw [List.forall₂_map_left_iff, List.forall₂_map_right_iff]
  exact h.imp fun _ _ hd => .declared hd

theorem Sentence.Alike.items (h : s.Alike l s')
    (hend : K ⟨.keyword .endBlock, s.connectionsEnd⟩ ⟨.keyword .endBlock, s'.connectionsEnd⟩)
    (devicesEnd devicesEnd' monitorEnd monitorEnd' : Position) :
    List.Forall₂ (Item.Alike l K) (s.items devicesEnd monitorEnd)
      (s'.items devicesEnd' monitorEnd') :=
  List.rel_append (List.rel_append (alike_blockItems h.devices nofun)
    (alike_blockItems h.connections fun _ => hend)) (alike_blockItems h.monitors nofun)

/-! ### Anchors -/

theorem DeviceDecl.Alike.anchor {d d' : DeviceDecl} (h : d.Alike (l.standing K) d')
    (e : DeviceError) : Symbol.Related K (d.anchor e) (d'.anchor e) := by
  obtain ⟨kind, qualifier, name⟩ := d
  obtain ⟨kind', qualifier', name'⟩ := d'
  obtain ⟨hkind, hnumber, hname⟩ := h
  have hqualifier : Symbol.Related K ((qualifier.map Numeral.symbol).getD kind.symbol)
      ((qualifier'.map Numeral.symbol).getD kind'.symbol) := by
    cases hnumber with
    | none => exact ⟨_, _, rfl, rfl, hkind.2⟩
    | some hn => exact ⟨_, _, rfl, rfl, hn.2⟩
  cases e with
  | devicePresent => exact ⟨_, _, rfl, rfl, hname.2⟩
  | badDevice | noQualifier => exact ⟨_, _, rfl, rfl, hkind.2⟩
  | qualifierPresent | invalidQualifier => exact hqualifier

theorem ConnectionDecl.Alike.anchor {d d' : ConnectionDecl} (h : d.Alike (l.standing K) d')
    (e : ConnectionError) : Symbol.Related K (d.anchor e) (d'.anchor e) := by
  obtain ⟨outDevice, outPin, inDevice, inPin⟩ := d
  obtain ⟨outDevice', outPin', inDevice', inPin'⟩ := d'
  obtain ⟨hout, houtPin, hin, hinPin⟩ := h
  have hpin : Symbol.Related K (outPin.getD outDevice).symbol
      (outPin'.getD outDevice').symbol := by
    cases houtPin with
    | none => exact ⟨_, _, rfl, rfl, hout.2⟩
    | some hw => exact ⟨_, _, rfl, rfl, hw.2⟩
  cases e with
  | outputDeviceAbsent | pinAbsent => exact ⟨_, _, rfl, rfl, hout.2⟩
  | inputDeviceAbsent | outputToOutput => exact ⟨_, _, rfl, rfl, hin.2⟩
  | inputConnected => exact ⟨_, _, rfl, rfl, hinPin.2⟩
  | inputToInput => exact hpin

theorem MonitorDecl.Alike.anchor {d d' : MonitorDecl} (h : d.Alike (l.standing K) d')
    (e : MonitorError) : Symbol.Related K (d.anchor e) (d'.anchor e) := by
  cases e <;> exact ⟨_, _, rfl, rfl, h.device.2⟩

/-! ### One step -/

/-- Where two declarations that are alike are refused for one cause, the words that are to blame
stand where `K` says. -/
theorem Declaration.Alike.related (h : d.Alike (l.standing K) d') {kind : ErrorKind} {x y : Symbol}
    (hx : d.Blames kind x) (hy : d'.Blames kind y) : Symbol.Related K x y := by
  cases h with
  | device h =>
      obtain ⟨e, rfl, rfl⟩ := hx.eq_deviceAnchor
      obtain ⟨e', ⟨⟩, rfl⟩ := hy.eq_deviceAnchor
      exact h.anchor e
  | connection h =>
      obtain ⟨e, rfl, rfl⟩ := hx.eq_connectionAnchor
      obtain ⟨e', ⟨⟩, rfl⟩ := hy.eq_connectionAnchor
      exact h.anchor e
  | monitor h =>
      obtain ⟨e, rfl, rfl⟩ := hx.eq_monitorAnchor
      obtain ⟨e', ⟨⟩, rfl⟩ := hy.eq_monitorAnchor
      exact h.anchor e

/-- Words that are alike mean the same to the circuits over a table, up to the numbers of the
devices. -/
structure Likeness.Means (l : Likeness) (t : NameTable) (f : NameId → NameId)
    (ids ids' : String → NameId) : Prop where
  device : ∀ w w', l.device w w' → ids' w'.text = f (ids w.text)
  kind : ∀ w w', l.label w w' →
    (Catalogue.ofNames t).kind? (ids' w'.text) = (Catalogue.ofNames t).kind? (ids w.text)
  pin : ∀ w w', l.label w w' → ∀ c : Circuit, c.Consistent t →
    c.SamePin (some (ids w.text)) (some (ids' w'.text))
  number : ∀ n n', l.number n n' → n'.value = n.value

variable {t : NameTable} {f : NameId → NameId} {ids ids' : String → NameId}

theorem Likeness.Means.standing (h : l.Means t f ids ids') (K : Token → Token → Prop) :
    (l.standing K).Means t f ids ids' where
  device := fun _ _ hw => h.device _ _ hw.1
  kind := fun _ _ hw => h.kind _ _ hw.1
  pin := fun _ _ hw => h.pin _ _ hw.1
  number := fun _ _ hn => h.number _ _ hn.1

theorem Likeness.Means.samePin {c : Circuit} (h : l.Means t f ids ids') (hc : c.Consistent t)
    {pin pin' : Option Word} (hpin : Option.Rel l.label pin pin') :
    c.SamePin (pin.map fun w => ids w.text) (pin'.map fun w => ids' w.text) := by
  cases hpin with
  | none => exact .inl rfl
  | some hw => exact h.pin _ _ hw c hc

theorem Likeness.Means.number_eq (h : l.Means t f ids ids') {n n' : Option Numeral}
    (hn : Option.Rel l.number n n') :
    (n'.map fun n => (n.value : Int)) = n.map fun n => (n.value : Int) := by
  cases hn with
  | none => rfl
  | some hn => simp only [Option.map_some, h.number _ _ hn]

theorem Declaration.Alike.call_renames {c : Circuit} (hd : d.Alike l d')
    (h : l.Means t f ids ids') (hc : c.Consistent t) :
    (d.call ids).Renames f c (d'.call ids') := by
  cases hd with
  | @device d d' hd =>
      have hkind : c.catalogue.kind? (ids' d'.kind.text) = c.catalogue.kind? (ids d.kind.text) := by
        rw [hc.catalogue, h.kind _ _ hd.kind]
      rw [call, call, h.number_eq hd.qualifier, h.device _ _ hd.name]
      exact .device hkind
  | connection hd =>
      rw [call, call, h.device _ _ hd.outDevice, h.device _ _ hd.inDevice]
      exact .connection (h.samePin hc hd.outPin) (h.pin _ _ hd.inPin c hc)
  | monitor hd =>
      rw [call, call, h.device _ _ hd.device]
      exact .monitor (h.samePin hc hd.pin)

theorem Declaration.Alike.isFree_eq (hd : d.Alike l d') (h : l.Means t f ids ids')
    (hf : f.Injective) (rejected : List NameId) :
    d'.isFree ids' (· ∈ rejected.map f) = d.isFree ids (· ∈ rejected) := by
  have hmem : ∀ id, f id ∈ rejected.map f ↔ id ∈ rejected :=
    fun _ => List.mem_map_of_injective hf
  cases hd with
  | device => rfl
  | connection hd =>
      simp only [isFree, refersTo, List.all_cons, List.all_nil, h.device _ _ hd.outDevice,
        h.device _ _ hd.inDevice, hmem]
  | monitor hd =>
      simp only [isFree, refersTo, List.all_cons, List.all_nil, h.device _ _ hd.device, hmem]

namespace Progress

/-- Two runs are in step: they stand alike, but for the numbers of the devices. -/
structure InStep (t : NameTable) (f : NameId → NameId) (p q : Progress Circuit) : Prop where
  consistent : p.builder.Consistent t
  builder : q.builder = p.builder.renamed f
  rejected : q.rejected = p.rejected.map f
  blocked : q.blocked = p.blocked
  errors : q.errors = p.errors

variable {p q : Progress Circuit}

theorem InStep.note (h : p.InStep t f q) (kind : ErrorKind) : (p.note kind).InStep t f (q.note kind)
    where
  consistent := h.consistent
  builder := h.builder
  rejected := h.rejected
  blocked := congrArg (· || kind.blocksBuilding) h.blocked
  errors := congrArg (· + 1) h.errors

/-- Both runs pass over a declaration, have it taken, or have it refused for one cause. -/
theorem InStep.declare (h : p.InStep t f q) (ht : t.HasVocabulary) (hf : f.Injective)
    (hl : l.Means t f ids ids') (hd : d.Alike (l.standing K) d') :
    (p.declare ids d).2.InStep t f (q.declare ids' d').2 ∧
      List.Forall₂ (Diagnostic.Alike K) (Event.diagnostics (p.declare ids d).1)
        (Event.diagnostics (q.declare ids' d').1) := by
  have hcall := hd.call_renames (hl.standing K) h.consistent
  have hanswer := Circuit.answer_renamed hf hcall
  have hfree := hd.isFree_eq (hl.standing K) hf p.rejected
  rw [← h.builder] at hanswer
  rw [← h.rejected] at hfree
  -- what the answers make of the two runs
  have hnext : ∀ refusal b, NetworkBuilder.answer p.builder (d.call ids) = (refusal, b) →
      InStep t f
        { p with builder := b, rejected := (d.call ids).rejectedAfter p.rejected refusal }
        { q with builder := b.renamed f
                 rejected := (d'.call ids').rejectedAfter q.rejected refusal } := by
    intro refusal b hb
    have hc := Circuit.consistent_answer ht h.consistent (d.call ids)
    rw [hb] at hc
    refine ⟨hc, rfl, ?_, h.blocked, h.errors⟩
    rw [h.rejected]
    exact Call.rejectedAfter_renamed hf hcall p.rejected refusal
  rcases p.declare_cases ids d with ⟨hskip, hp⟩ | ⟨hgo, hp⟩
  · -- both runs pass over what refers to a rejected device
    rcases q.declare_cases ids' d' with ⟨-, hq⟩ | ⟨hgo', -⟩
    · rw [hp, hq]
      exact ⟨h, .nil⟩
    · rw [hfree, hskip] at hgo'
      cases hgo'
  · rcases q.declare_cases ids' d' with ⟨hskip', -⟩ | ⟨-, hq⟩
    · rw [hfree, hgo] at hskip'
      cases hskip'
    rcases hp with ⟨b, hb, hp⟩ | ⟨b, kind, x, hb, hx, hp⟩
    all_goals
      rw [hanswer, hb] at hq
      rw [hp]
    · obtain ⟨_, ⟨⟩, hq⟩ | ⟨_, _, _, ⟨⟩, -⟩ := hq
      rw [hq]
      exact ⟨hnext _ _ hb, .nil⟩
    · obtain ⟨_, ⟨⟩, -⟩ | ⟨_, _, y, ⟨⟩, hy, hq⟩ := hq
      rw [hq]
      exact ⟨(hnext _ _ hb).note kind, .cons ⟨rfl, hd.related hx hy⟩ .nil⟩

/-- **One step keeps both runs in step.** -/
theorem InStep.step (h : p.InStep t f q) (ht : t.HasVocabulary) (hf : f.Injective)
    (hl : l.Means t f ids ids') {item item' : Item}
    (hitem : Item.Alike (l.standing K) K item item') :
    (p.step ids item).2.InStep t f (q.step ids' item').2 ∧
      List.Forall₂ (Diagnostic.Alike K) (Event.diagnostics (p.step ids item).1)
        (Event.diagnostics (q.step ids' item').1) := by
  cases hitem with
  | opened b => exact ⟨h, .nil⟩
  | declared hd =>
      rw [Progress.step, Progress.step, h.blocked]
      split
      · exact ⟨h, .nil⟩
      · exact h.declare ht hf hl hd
  | @closed b t t' hend =>
      have hcomplete :
          NetworkBuilder.isComplete q.builder = NetworkBuilder.isComplete p.builder := by
        rw [h.builder]
        exact Circuit.isConnected_renamed
      rw [Progress.step, Progress.step, h.errors]
      split
      · next hcheck =>
        rw [check, check, hcomplete]
        split
        · exact ⟨h, .nil⟩
        · exact ⟨h.note _, .cons ⟨rfl, t, t', rfl, rfl, hend hcheck.1⟩ .nil⟩
      · exact ⟨h, .nil⟩

/-- **Two runs over items that are alike stay in step**, and make the same diagnostics. -/
theorem InStep.steps (h : p.InStep t f q) (ht : t.HasVocabulary) (hf : f.Injective)
    (hl : l.Means t f ids ids') {items items' : List Item}
    (hitems : List.Forall₂ (Item.Alike (l.standing K) K) items items') :
    (p.steps ids items).2.InStep t f (q.steps ids' items').2 ∧
      List.Forall₂ (Diagnostic.Alike K) (Event.diagnostics (p.steps ids items).1)
        (Event.diagnostics (q.steps ids' items').1) := by
  induction hitems generalizing p q with
  | nil => exact ⟨h, .nil⟩
  | cons hitem _ ih =>
      obtain ⟨hfirst, hdiagnostics⟩ := h.step ht hf hl hitem
      obtain ⟨hlast, hothers⟩ := ih hfirst
      simp only [Progress.steps, Event.diagnostics_append]
      exact ⟨hlast, List.rel_append hdiagnostics hothers⟩

end Progress

end Runs

/-! ## The two tables -/

namespace NameTable

variable {t : NameTable} {x y : String} {ρ : String → String} {xs : List String} {u v : NameTable}

/-- A number that is in use was foreseen for its name only. -/
theorem eq_of_lookup?_idFor (h : t.lookup? (t.idFor x) = some y) : y = x := by
  obtain ⟨hlt, -⟩ := List.getElem?_eq_some_iff.mp h
  rw [lookup?_idFor (List.idxOf_lt_length_iff.mp hlt)] at h
  exact (Option.some.inj h).symm

/-- Numbers are exchanged: that of a name in one table for that of the other name in the other. -/
structure Renumbers (ρ : String → String) (xs : List String) (u v : NameTable)
    (f : NameId → NameId) : Prop where
  injective : f.Injective
  device : ∀ x ∈ xs, f (u.idFor x) = v.idFor (ρ x)

/-- Exchange the numbers of some names, and move all others out of the way. -/
def renumber (ρ : String → String) (xs : List String) (u v : NameTable) (id : NameId) : NameId :=
  match xs.find? fun x => u.idFor x == id with
  | some x => v.idFor (ρ x)
  | none => ⟨v.size + id.index⟩

/-- Names that were entered can have their numbers exchanged. -/
theorem renumbers_renumber (hxs : ∀ x ∈ xs, x ∈ u.names) (hρxs : ∀ x ∈ xs, ρ x ∈ v.names)
    (hρ : ∀ x ∈ xs, ∀ y ∈ xs, ρ x = ρ y → x = y) :
    Renumbers ρ xs u v (renumber ρ xs u v) where
  injective := by
    have hmoved : ∀ {x : String} {n : Nat}, x ∈ xs → v.idFor (ρ x) ≠ ⟨v.size + n⟩ := by
      intro x n hx heq
      have hlt : v.names.idxOf (ρ x) < v.size := List.idxOf_lt_length_of_mem (hρxs x hx)
      have hindex : v.names.idxOf (ρ x) = v.size + n := congrArg NameId.index heq
      omega
    intro i j hij
    unfold renumber at hij
    split at hij
    · next x hi =>
      have hx := List.mem_of_find?_eq_some hi
      split at hij
      · next y hj =>
        have hy := List.mem_of_find?_eq_some hj
        obtain rfl := hρ x hx y hy ((idFor_inj (hρxs x hx)).mp hij)
        have hi := List.find?_some hi
        have hj := List.find?_some hj
        rw [beq_iff_eq] at hi hj
        rw [← hi, ← hj]
      · exact absurd hij (hmoved hx)
    · split at hij
      · next y hj => exact absurd hij.symm (hmoved (List.mem_of_find?_eq_some hj))
      · cases i
        cases j
        simpa using hij
  device := by
    intro x hx
    have hfind : (xs.find? fun y => u.idFor y == u.idFor x) = some x :=
      (find?_idFor_eq_some_iff hxs fun _ _ _ _ heq => heq).mpr ⟨hx, rfl⟩
    rw [renumber, hfind]

end NameTable

namespace Circuit

variable {t : NameTable} {c : Circuit} {x : String}

theorem Consistent.forFile (h : c.Consistent t) (ht : t.HasVocabulary) (ts : List Token) :
    c.Consistent (t.forFile ts) :=
  (h.internAll ht Keyword.spellings).internAll
    (fun name hname => NameTable.mem_names_internAll.mpr (.inl (ht name hname))) _

/-- A label that no kind of device has is that of no pin, in whichever file it is written. -/
theorem Consistent.lacks (h : c.Consistent t) (ht : t.HasVocabulary)
    (hx : x ∉ Catalogue.vocabulary) (ts : List Token) :
    c.Lacks (some ((t.forFile ts).idFor x)) := by
  intro d hd
  have hp := (h.forFile ht ts).prescribed d hd
  refine ⟨Bool.not_eq_true _ ▸ ?_, Bool.not_eq_true _ ▸ ?_⟩
  · intro hin
    obtain ⟨i, hi, hpin⟩ := List.any_eq_true.mp hin
    obtain ⟨y, hy, hlookup⟩ := hp.exists_inputLabel hi
    rw [beq_iff_eq.mp hpin] at hlookup
    obtain rfl := NameTable.eq_of_lookup?_idFor hlookup
    exact hx ((d.part _).inputLabels_subset hy)
  · intro hout
    obtain ⟨y, hy, hlookup⟩ := hp.exists_outputLabel (List.contains_iff_mem.mp hout)
    obtain rfl := NameTable.eq_of_lookup?_idFor hlookup
    exact hx (Part.mem_vocabulary_of_output hy)

/-- One label is the same pin in two files. -/
theorem Consistent.samePin (h : c.Consistent t) (ht : t.HasVocabulary) (x : String)
    (ts ts' : List Token) :
    c.SamePin (some ((t.forFile ts).idFor x)) (some ((t.forFile ts').idFor x)) := by
  by_cases hx : x ∈ Catalogue.vocabulary
  · refine .inl ?_
    rw [NameTable.idFor_forFile_of_mem (ht x hx), NameTable.idFor_forFile_of_mem (ht x hx)]
  · exact .inr ⟨h.lacks ht hx ts, h.lacks ht hx ts'⟩

end Circuit

theorem Catalogue.kind?_forFile {t : NameTable} (ht : t.HasVocabulary) (x : String)
    (ts : List Token) :
    (ofNames t).kind? ((t.forFile ts).idFor x) = DeviceKind.ofSpelling? x := by
  rw [← ht.ofNames_forFile ts]
  exact kind?_ofNames (ht.forFile ts) x

/-- Where devices have other names, words mean the same up to the numbers of the devices. -/
theorem NameTable.Renumbers.means {t : NameTable} (ht : t.HasVocabulary) {ρ : String → String}
    {xs : List String} {ts ts' : List Token} {f : NameId → NameId}
    (hf : Renumbers ρ xs (t.forFile ts) (t.forFile ts') f) :
    ((Likeness.renames ρ).among xs).Means t f (t.forFile ts).idFor (t.forFile ts').idFor where
  device := by
    intro w w' hw
    obtain ⟨hname, hmem⟩ := hw
    rw [hf.device _ hmem, ← hname]
  kind := by
    intro w w' hw
    rw [Catalogue.kind?_forFile ht, Catalogue.kind?_forFile ht, ← hw]
  pin := by
    intro w w' hw c hc
    rw [← hw]
    exact hc.samePin ht w'.text ts ts'
  number := fun _ _ hn => hn

/-! ## Devices with other names -/

/-- Words in the same place of two sentences are the same symbols of the two texts. -/
theorem TokenStream.BeginsWith.getElem?_paired {a b : TokenStream} {ts us : List Token}
    (ha : a.BeginsWith ts) (hb : b.BeginsWith us) {t u : Token} (h : Paired ts us t u) :
    ∃ i : Nat, a.symbols[i]? = some (Symbol.token t) ∧ b.symbols[i]? = some (Symbol.token u) := by
  obtain ⟨i, hi⟩ := List.mem_iff_getElem?.mp h
  obtain ⟨ht, hu⟩ := List.getElem?_zip_eq_some.mp hi
  obtain ⟨rest, hrest⟩ := ha
  obtain ⟨rest', hrest'⟩ := hb
  refine ⟨i, ?_, ?_⟩
  · rw [← hrest, List.getElem?_append_left (by simpa using (List.getElem?_eq_some_iff.mp ht).1)]
    simp [ht]
  · rw [← hrest', List.getElem?_append_left (by simpa using (List.getElem?_eq_some_iff.mp hu).1)]
    simp [hu]

/--
**Only the identity of device names matters.** Take two texts that begin with sentences of one form,
which are the same but for the names in the places of devices: the name of a declared device, both
devices of a connection, the device of a monitor. Let distinct names be distinct in the other text
as well; they may be anything that is read as a name, the spelling of a type or of a pin among them.
Parsed into a fresh circuit, both files are accepted or both are not, the same diagnostics are made
at the symbols in the same places, and the circuits are the same but for the numbers of the devices,
which are those of the names and of the other names.
-/
theorem parse_other_names (ρ : String → String) {s s' : Sentence} {ts ts' : List Token}
    {text other : String} (names : NameTable) (hs : s.Says ts)
    (htext : (TokenStream.ofText text).BeginsWith ts) (hs' : s'.Says ts')
    (hother : (TokenStream.ofText other).BeginsWith ts') (halike : s.Alike (.renames ρ) s')
    (hρ : ∀ x ∈ s.deviceNames, ∀ y ∈ s.deviceNames, ρ x = ρ y → x = y) :
    let fresh := Circuit.start names
    let r := parse fresh.1 fresh.2 text
    let q := parse fresh.1 fresh.2 other
    q.ok = r.ok ∧
    List.Forall₂ (fun d d' : Diagnostic => d'.kind = d.kind ∧
      ∃ i : Nat, (TokenStream.ofText text).symbols[i]? = some d.anchor ∧
        (TokenStream.ofText other).symbols[i]? = some d'.anchor) r.diagnostics q.diagnostics ∧
    (∃ f, NameTable.Renumbers ρ s.deviceNames r.names q.names f) ∧
    ∀ f, NameTable.Renumbers ρ s.deviceNames r.names q.names f →
      q.builder = r.builder.renamed f := by
  obtain ⟨t, ht, hstart⟩ := Circuit.start_eq names
  obtain ⟨devicesEnd, monitorEnd, mainEnd, hread⟩ := hs.parse_eq
  obtain ⟨devicesEnd', monitorEnd', mainEnd', hread'⟩ := hs'.parse_eq
  rw [hstart]
  intro fresh r q
  have hr : r = _ := hread t (Circuit.empty t) text htext
  have hq : q = _ := hread' t (Circuit.empty t) other hother
  obtain ⟨hpaired, hend⟩ := hs.paired hs' halike.among
  have hitems := hpaired.items hend devicesEnd devicesEnd' monitorEnd monitorEnd'
  -- any numbers that fit keep the two runs in step
  have hsteps : ∀ f, NameTable.Renumbers ρ s.deviceNames (t.forFile ts) (t.forFile ts') f →
      q.builder = r.builder.renamed f ∧
        List.Forall₂ (Diagnostic.Alike (Paired ts ts')) r.diagnostics q.diagnostics := by
    intro f hf
    have hstart : (Progress.start (Circuit.empty t)).InStep t f (.start (.empty t)) :=
      ⟨Circuit.consistent_empty t, rfl, rfl, rfl, rfl⟩
    obtain ⟨hlast, hdiagnostics⟩ := hstart.steps ht hf.injective (hf.means ht) hitems
    rw [hr, hq]
    exact ⟨hlast.builder, hdiagnostics⟩
  have hnames : r.names = t.forFile ts := by rw [hr]
  have hnames' : q.names = t.forFile ts' := by rw [hq]
  rw [hnames, hnames']
  have hf := NameTable.renumbers_renumber (hs.deviceNames_subset t)
    (fun x hx => hs'.deviceNames_subset t (halike.deviceNames_eq ▸ List.mem_map_of_mem hx)) hρ
  obtain ⟨-, hdiagnostics⟩ := hsteps _ hf
  refine ⟨?_, hdiagnostics.imp fun d d' hd => ⟨hd.kind, ?_⟩, ⟨_, hf⟩, fun f hf => (hsteps f hf).1⟩
  · rw [Bool.eq_iff_iff, Parsed.ok, Parsed.ok, List.isEmpty_iff_length_eq_zero,
      List.isEmpty_iff_length_eq_zero, hdiagnostics.length_eq]
  · obtain ⟨x, y, hx, hy, hxy⟩ := hd.anchor
    rw [hx, hy]
    exact htext.getElem?_paired hother hxy

set_option maxRecDepth 2000 in
/-- A gate called like its type, and a switch called like the pin that it drives. -/
theorem parse_names_of_type_and_pin :
    let text := "DEVICES AND,1=DEV; SWITCH,1=S1; END CONNECTIONS S1-DEV.I1; S1-DEV.I1; END " ++
      "MONITOR DEV; END MAIN_END"
    let other := "DEVICES AND,1=AND; SWITCH,1=I1; END CONNECTIONS I1-AND.I1; I1-AND.I1; END " ++
      "MONITOR AND; END MAIN_END"
    let fresh := Circuit.start .empty
    let r := parse fresh.1 fresh.2 text
    let q := parse fresh.1 fresh.2 other
    r.diagnostics.map Diagnostic.kind = [.connection .inputConnected] ∧
      q.diagnostics.map Diagnostic.kind = [.connection .inputConnected] ∧
      ∃ f : NameId → NameId, f.Injective ∧ f (r.names.idFor "DEV") = q.names.idFor "AND" ∧
        f (r.names.idFor "S1") = q.names.idFor "I1" ∧ q.builder = r.builder.renamed f := by
  intro text other fresh r q
  let ρ : String → String := fun x => if x = "DEV" then "AND" else "I1"
  let sentence (gate switch : String) : Sentence :=
    ⟨[⟨⟨"AND", ⟨1, 9⟩⟩, some ⟨1, ⟨1, 13⟩⟩, ⟨gate, ⟨1, 15⟩⟩⟩,
        ⟨⟨"SWITCH", ⟨1, 20⟩⟩, some ⟨1, ⟨1, 27⟩⟩, ⟨switch, ⟨1, 29⟩⟩⟩],
      [⟨⟨switch, ⟨1, 49⟩⟩, none, ⟨gate, ⟨1, 52⟩⟩, ⟨"I1", ⟨1, 56⟩⟩⟩,
        ⟨⟨switch, ⟨1, 60⟩⟩, none, ⟨gate, ⟨1, 63⟩⟩, ⟨"I1", ⟨1, 67⟩⟩⟩],
      ⟨1, 71⟩, [⟨⟨gate, ⟨1, 83⟩⟩, none⟩]⟩
  have hitems : (Outline.ofStream (.ofText text)).items =
      (sentence "DEV" "S1").items ⟨1, 33⟩ ⟨1, 88⟩ := by
    unfold text sentence
    cbv
  have hitems' : (Outline.ofStream (.ofText other)).items =
      (sentence "AND" "I1").items ⟨1, 33⟩ ⟨1, 88⟩ := by
    unfold other sentence
    cbv
  obtain ⟨ts, hs, htext⟩ := Sentence.says_of_items hitems
  obtain ⟨ts', hs', hother⟩ := Sentence.says_of_items hitems'
  have halike : (sentence "DEV" "S1").Alike (.renames ρ) (sentence "AND" "I1") :=
    ⟨.cons (.device ⟨rfl, .some rfl, rfl⟩) (.cons (.device ⟨rfl, .some rfl, rfl⟩) .nil),
      .cons (.connection ⟨rfl, .none, rfl, rfl⟩) (.cons (.connection ⟨rfl, .none, rfl, rfl⟩) .nil),
      .cons (.monitor ⟨rfl, .none⟩) .nil⟩
  have hnames : ∀ x ∈ (sentence "DEV" "S1").deviceNames, x = "DEV" ∨ x = "S1" := by
    simp [sentence, Sentence.deviceNames, Sentence.declarations, Declaration.deviceWords]
  have hρ : ∀ x ∈ (sentence "DEV" "S1").deviceNames, ∀ y ∈ (sentence "DEV" "S1").deviceNames,
      ρ x = ρ y → x = y := by
    intro x hx y hy
    rcases hnames x hx with rfl | rfl <;> rcases hnames y hy with rfl | rfl <;> decide
  obtain ⟨-, hkinds, ⟨f, hf⟩, hbuilder⟩ :=
    parse_other_names ρ .empty hs htext hs' hother halike hρ
  have hr : r.diagnostics.map Diagnostic.kind = [.connection .inputConnected] := by
    unfold r fresh text
    cbv
  have hsame : r.diagnostics.map Diagnostic.kind = q.diagnostics.map Diagnostic.kind := by
    rw [← List.forall₂_eq_eq_eq, List.forall₂_map_left_iff, List.forall₂_map_right_iff]
    exact hkinds.imp fun _ _ hd => hd.1.symm
  refine ⟨hr, hsame ▸ hr, f, hf.injective, ?_, ?_, hbuilder f hf⟩
  · exact hf.device "DEV" (by decide)
  · exact hf.device "S1" (by decide)

end LogicNet
