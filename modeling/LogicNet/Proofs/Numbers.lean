import Mathlib
import LogicNet.Proofs.Acceptance
import LogicNet.Proofs.Ascent
import LogicNet.Proofs.Delivery
import LogicNet.Proofs.Growth
import LogicNet.Proofs.Lexing
import LogicNet.Proofs.Representation

/-!
# The number that is built, and the number that is written

A run of digits may be as long as it likes, and a number has a limit. So what is too large is read
as the largest number there is, and the qualifier rules are left to refuse it. Those of gates and
switches do, since they have bounds of their own, and the other kinds take no number at all. That of
clocks does not. A clock with a half period beyond the limit is taken, with another half period than
the one that is written (`parse_clock_beyond_limit`), and it is the only device to which this can
happen (`parse_numbers`).
-/

namespace LogicNet

open Text (Position Placed place)

/-! ## The digits at a place -/

/-- What stands in a text from a place on. -/
def Text.standsAt (text : String) (p : Position) : List Char :=
  ((place .start text.toList).dropWhile (·.pos != p)).map Placed.char

/-- The run of digits that starts at a place. -/
def Text.digitsAt (text : String) (p : Position) : List Char :=
  (Text.standsAt text p).takeWhile Char.isDigit

/-- The number that is written at a place. -/
def Text.numberAt (text : String) (p : Position) : Nat :=
  Nat.ofDigits 10 ((Text.digitsAt text p).reverse.map digitValue)

/-- Behind a stretch of the text stands the rest of it. -/
theorem Text.standsAt_behind {text : String} {before rest : List Char}
    (h : text.toList = before ++ rest) (hrest : rest ≠ []) :
    Text.standsAt text (.behind before) = rest := by
  have hplace : place .start text.toList =
      place .start before ++ place (.behind before) rest := by
    rw [h]
    exact place_behind_append [] before rest
  have hafter : Position.start.after before = .behind before := Position.after_behind [] before
  have hbefore : ∀ c ∈ place .start before, (c.pos != Position.behind before) = true := by
    intro c hc
    obtain ⟨hpairwise, -⟩ := pairwise_pos_place .start before
    rw [hafter] at hpairwise
    have hlt := (List.pairwise_append.mp hpairwise).2.2 c.pos (List.mem_map_of_mem hc) _
      (List.mem_singleton_self _)
    exact bne_iff_ne.mpr fun heq => Position.Before.irrefl _ (heq ▸ hlt)
  have hstop : ∀ c ∈ (place (.behind before) rest).head?,
      (c.pos != Position.behind before) = false := by
    cases rest with
    | nil => exact absurd rfl hrest
    | cons c rest => simp [place]
  rw [standsAt, hplace, (takeWhile_append_of_stop hbefore hstop).2, map_char_place]

/-- **A number token says what is written at its place**, up to the limit. -/
theorem Scans.number_eq {text : String} {before cs : List Char} {ts : List Token} {e : Ending}
    (h : Scans before cs ts e) (htext : text.toList = before ++ cs) {v : Nat} {p : Position}
    (hmem : ⟨.number v, p⟩ ∈ ts) :
    Text.digitsAt text p ≠ [] ∧ v = min (Text.numberAt text p) (2 ^ 63 - 1) := by
  induction h with
  | ends | endsInComment => exact absurd hmem List.not_mem_nil
  | @lexeme before gap word rest lexeme ts e hgap hword hstop hscans ih =>
      rcases List.mem_cons.mp hmem with heq | hmem
      · cases heq
        cases hword with
        | number hne hdigits =>
          have hstands : Text.standsAt text (.behind (before ++ gap)) = word ++ rest := by
            refine Text.standsAt_behind (by rw [htext]; simp) ?_
            simp [hne]
          have hrun : Text.digitsAt text (.behind (before ++ gap)) = word := by
            rw [Text.digitsAt, hstands]
            exact (takeWhile_append_of_stop hdigits hstop).1
          rw [Text.numberAt, hrun]
          exact ⟨hne, rfl⟩
      · exact ih (by rw [htext]; simp) hmem

theorem TokenStream.number_eq {text : String} {n : Numeral}
    (h : n.token ∈ (TokenStream.ofText text).tokens) :
    Text.digitsAt text n.pos ≠ [] ∧ n.value = min (Text.numberAt text n.pos) (2 ^ 63 - 1) :=
  (scans_iff.mpr (TokenStream.behind_nil text)).number_eq rfl h

/-! ## What is declared is written -/

theorem TokenStream.exists_infix_of_mem_declarations {s : TokenStream} {d : Declaration}
    {p : Position} (h : (d, p) ∈ s.declarations) :
    ∃ (b : Block) (us : List Token), b.Declares d us ∧ us <:+: s.tokens := by
  obtain ⟨⟨b, rest⟩, hbody, hd⟩ := List.mem_flatMap.mp h
  obtain ⟨us, hdeclares, hus⟩ := Block.exists_infix_of_mem_contents hd
  exact ⟨b, us, hdeclares, hus.trans (Block.suffix_of_mem_bodies hbody).isInfix⟩

theorem Block.Declares.mem_qualifier {b : Block} {d : DeviceDecl} {us : List Token}
    (h : b.Declares (.device d) us) {n : Numeral} (hn : n ∈ d.qualifier) : n.token ∈ us := by
  cases h with
  | device => cases hn
  | qualifiedDevice =>
      obtain rfl := Option.some.inj hn
      simp

/-- The number that is written in a declaration, whatever its size. -/
def DeviceDecl.written (d : DeviceDecl) (text : String) : Option Nat :=
  d.qualifier.map fun n => Text.numberAt text n.pos

/-- **A declaration has the number that is written in it**, up to the limit. -/
theorem DeviceDecl.number_eq {text : String} {d : DeviceDecl} {p : Position}
    (h : (.device d, p) ∈ (TokenStream.ofText text).declarations) :
    (∀ n ∈ d.qualifier, Text.digitsAt text n.pos ≠ []) ∧
      d.number = (d.written text).map fun n => ((min n (2 ^ 63 - 1) : Nat) : Int) := by
  obtain ⟨b, us, hd, hus⟩ := TokenStream.exists_infix_of_mem_declarations h
  have hmem : ∀ n ∈ d.qualifier, n.token ∈ (TokenStream.ofText text).tokens :=
    fun n hn => hus.subset (hd.mem_qualifier hn)
  refine ⟨fun n hn => (TokenStream.number_eq (hmem n hn)).1, ?_⟩
  rw [number, written, Option.map_map]
  exact Option.map_congr fun n hn => congrArg Nat.cast (TokenStream.number_eq (hmem n hn)).2

/-! ## What a circuit makes of a declaration -/

/-- A device is what a declaration says, and its kind admits its number. -/
structure Device.MadeFrom (ids : String → NameId) (e : Device) (d : DeviceDecl) : Prop where
  id : e.id = ids d.name.text
  kind : e.kind.spelling = d.kind.text
  qualifier : e.qualifier = d.number
  admits : e.kind.qualifierRule.Admits e.qualifier

theorem Device.MadeFrom.samePins {ids : String → NameId} {e e' : Device} {d : DeviceDecl}
    (h : e.MadeFrom ids d) (hsame : e'.SamePins e) : e'.MadeFrom ids d where
  id := hsame.id.trans h.id
  kind := by rw [hsame.kind, h.kind]
  qualifier := hsame.qualifier.trans h.qualifier
  admits := by
    rw [hsame.kind, hsame.qualifier]
    exact h.admits

/-- A device that is new has the name, the kind and the qualifier that were asked for. -/
theorem Catalogue.device_eq_ok {c : Catalogue} {id : NameId} {kind : DeviceKind}
    {qualifier : Option Int} {e : Device} (h : c.device id kind qualifier = .ok e) :
    e.id = id ∧ e.kind = kind ∧ e.qualifier = qualifier ∧
      kind.qualifierRule.Admits qualifier := by
  obtain ⟨hadmits, rfl⟩ := device_eq_ok_iff.mp h
  exact ⟨rfl, rfl, rfl, hadmits⟩

/-- The device that a declaration declares, if it declares one. -/
def Declaration.device? : Declaration → Option DeviceDecl
  | .device d => some d
  | .connection _ | .monitor _ => none

namespace Circuit

variable {ids : String → NameId} {c next : Circuit} {ds : List DeviceDecl}

theorem made_addDevice (hkinds : ∀ x, c.catalogue.kind? (ids x) = DeviceKind.ofSpelling? x)
    (h : List.Forall₂ (Device.MadeFrom ids) c.devices ds) {d : DeviceDecl}
    (hadd : c.addDevice (ids d.name.text) (ids d.kind.text) d.number = .ok next) :
    next.catalogue = c.catalogue ∧
      List.Forall₂ (Device.MadeFrom ids) next.devices (ds ++ [d]) := by
  obtain ⟨-, k, hk, e, hmade, rfl⟩ := addDevice_eq_ok_iff.mp hadd
  obtain ⟨hid, rfl, hqualifier, hadmits⟩ := Catalogue.device_eq_ok hmade
  rw [hkinds, DeviceKind.ofSpelling?_eq_some_iff] at hk
  exact ⟨rfl, List.rel_append h (.cons ⟨hid, hk, hqualifier, hqualifier ▸ hadmits⟩ .nil)⟩

theorem made_wires (h : List.Forall₂ (Device.MadeFrom ids) c.devices ds) {i o : Signal}
    (hwires : c.Wires i o next) :
    next.catalogue = c.catalogue ∧ List.Forall₂ (Device.MadeFrom ids) next.devices ds := by
  obtain ⟨d, e, pin, -, -, -, -, hdrive⟩ := hwires
  obtain ⟨-, rfl⟩ := drive_eq_ok_iff.mp hdrive
  refine ⟨rfl, List.forall₂_map_left_iff.mpr (h.imp fun e d he => ?_)⟩
  split
  · exact he.samePins Device.samePins_drive
  · exact he

/-- **A call that is taken adds the device that it declares**, if it declares one. -/
theorem made_answer (hkinds : ∀ x, c.catalogue.kind? (ids x) = DeviceKind.ofSpelling? x)
    (h : List.Forall₂ (Device.MadeFrom ids) c.devices ds) {d : Declaration}
    (htaken : NetworkBuilder.answer c (d.call ids) = (none, next)) :
    next.catalogue = c.catalogue ∧
      List.Forall₂ (Device.MadeFrom ids) next.devices (ds ++ d.device?.toList) := by
  cases d with
  | device d => exact made_addDevice hkinds h (refusal?_replyOf_iff.mp htaken)
  | connection d =>
      rw [Declaration.device?, Option.toList_none, List.append_nil]
      have hconnect : c.connect _ _ _ _ = .ok next := refusal?_replyOf_iff.mp htaken
      rcases connect_eq_ok_iff (p := ⟨_, _⟩) (q := ⟨_, _⟩).mp hconnect with hwires | hwires
      · exact made_wires h hwires
      · exact made_wires h hwires
  | monitor d =>
      rw [Declaration.device?, Option.toList_none, List.append_nil]
      have hadd : c.addMonitor _ _ = .ok next := refusal?_replyOf_iff.mp htaken
      obtain ⟨e, -, -, -, rfl⟩ := addMonitor_eq_ok_iff (q := ⟨_, _⟩).mp hadd
      exact ⟨rfl, h⟩

/-- A call that is refused changes nothing. -/
theorem eq_of_answer_some {call : Call} {kind : ErrorKind}
    (h : NetworkBuilder.answer c call = (some kind, next)) : next = c := by
  rcases c.taken_or_refuses call with ⟨last, htaken⟩ | ⟨kind', hrefused⟩
  · rw [htaken] at h
    cases h
  · exact (Prod.mk.inj (h.symm.trans hrefused)).2

end Circuit

/-- The device that was made, if a call for a device was taken. -/
def Event.made? : Event → Option Call
  | .called (.device name kind qualifier) none => some (.device name kind qualifier)
  | _ => none

namespace Progress

variable {ids : String → NameId}

/-- What can still be built of the items. -/
def buildable {β : Type} (p : Progress β) (items : List Item) : List Declaration :=
  if p.blocked then [] else Item.buildable items

theorem buildable_cons {β : Type} [NetworkBuilder β] (p : Progress β) (ids : String → NameId)
    (item : Item) (items : List Item) :
    p.buildable (item :: items) = p.buildable [item] ++ (p.step ids item).2.buildable items := by
  unfold buildable
  cases hblocked : p.blocked with
  | true => simp [blocked_step hblocked item]
  | false =>
      cases item with
      | opened b => simp [step, hblocked, Item.buildable]
      | closed b last => simp [(step_closed p ids b last).2.2, hblocked, Item.buildable]
      | declared d => simp [step, hblocked, blocked_declare, Item.buildable]
      | fault error symbol =>
          simp [step, hblocked, note, Item.buildable, ErrorKind.blocksBuilding]

/-- The devices of a circuit on the way from `p` to `q`: to those made from `ds` come those made
from `more`, of which the events tell. -/
structure Made (ids : String → NameId) (p q : Progress Circuit) (es : List Event)
    (ds more : List DeviceDecl) : Prop where
  catalogue : q.builder.catalogue = p.builder.catalogue
  devices : List.Forall₂ (Device.MadeFrom ids) q.builder.devices (ds ++ more)
  told : es.filterMap Event.made? = more.map fun d => (Declaration.device d).call ids

variable {p q r : Progress Circuit} {es es' : List Event} {ds more more' : List DeviceDecl}

theorem Made.nothing (h : List.Forall₂ (Device.MadeFrom ids) p.builder.devices ds)
    (hbuilder : q.builder = p.builder) (hes : es.filterMap Event.made? = []) :
    Made ids p q es ds [] := by
  refine ⟨by rw [hbuilder], ?_, hes⟩
  rwa [List.append_nil, hbuilder]

theorem Made.trans (h : Made ids p q es ds more) (h' : Made ids q r es' (ds ++ more) more') :
    Made ids p r (es ++ es') ds (more ++ more') where
  catalogue := h'.catalogue.trans h.catalogue
  devices := List.append_assoc ds more more' ▸ h'.devices
  told := by rw [List.filterMap_append, h.told, h'.told, List.map_append]

theorem made_declare (hkinds : ∀ x, p.builder.catalogue.kind? (ids x) = DeviceKind.ofSpelling? x)
    (h : List.Forall₂ (Device.MadeFrom ids) p.builder.devices ds) (d : Declaration) :
    ∃ more, (more.map Declaration.device).Sublist [d] ∧
      Made ids p (p.declare ids d).2 (p.declare ids d).1 ds more := by
  rcases p.declare_cases ids d with
    ⟨-, hd⟩ | ⟨-, ⟨b, htaken, hd⟩ | ⟨b, kind, symbol, hrefused, -, hd⟩⟩
  · rw [hd]
    exact ⟨[], List.nil_sublist _, .nothing h rfl rfl⟩
  · obtain ⟨hcatalogue, hdevices⟩ := Circuit.made_answer hkinds h htaken
    rw [hd]
    refine ⟨d.device?.toList, ?_, hcatalogue, hdevices, ?_⟩
    · cases d <;> simp [Declaration.device?]
    · cases d <;> rfl
  · obtain rfl := Circuit.eq_of_answer_some hrefused
    rw [hd]
    refine ⟨[], List.nil_sublist _, .nothing h rfl ?_⟩
    cases d <;> rfl

theorem made_step (hkinds : ∀ x, p.builder.catalogue.kind? (ids x) = DeviceKind.ofSpelling? x)
    (h : List.Forall₂ (Device.MadeFrom ids) p.builder.devices ds) (item : Item) :
    ∃ more, (more.map Declaration.device).Sublist (p.buildable [item]) ∧
      Made ids p (p.step ids item).2 (p.step ids item).1 ds more := by
  cases item with
  | opened b => exact ⟨[], List.nil_sublist _, .nothing h rfl rfl⟩
  | fault error symbol => exact ⟨[], List.nil_sublist _, .nothing h rfl rfl⟩
  | closed b last =>
      refine ⟨[], List.nil_sublist _, ?_⟩
      simp only [step, check]
      split
      · split <;> exact .nothing h rfl rfl
      · exact .nothing h rfl rfl
  | declared d =>
      rw [step, buildable]
      split
      · exact ⟨[], List.nil_sublist _, .nothing h rfl rfl⟩
      · exact made_declare hkinds h d

/-- **A run makes a device from each declaration that is taken**, of those that can be built. -/
theorem made_steps (hkinds : ∀ x, p.builder.catalogue.kind? (ids x) = DeviceKind.ofSpelling? x)
    (h : List.Forall₂ (Device.MadeFrom ids) p.builder.devices ds) (items : List Item) :
    ∃ more, (more.map Declaration.device).Sublist (p.buildable items) ∧
      Made ids p (p.steps ids items).2 (p.steps ids items).1 ds more := by
  induction items generalizing p ds with
  | nil => exact ⟨[], List.nil_sublist _, .nothing h rfl rfl⟩
  | cons item items ih =>
      obtain ⟨first, hfirst, hmade⟩ := made_step hkinds h item
      obtain ⟨others, hothers, hmade'⟩ := ih (hmade.catalogue ▸ hkinds) hmade.devices
      refine ⟨first ++ others, ?_, hmade.trans hmade'⟩
      rw [List.map_append, p.buildable_cons ids]
      exact hfirst.append hothers

end Progress

/-! ## A text -/

/-- The largest number there is fits no rule but that of clocks. -/
theorem DeviceKind.eq_clock_of_admits {k : DeviceKind}
    (h : k.qualifierRule.Admits (some (2 ^ 63 - 1))) : k = .clock := by
  cases k <;> simp [qualifierRule, QualifierRule.Admits, maxGateInputs] at h ⊢

/-- A device is what a declaration of a text says, as far as numbers go. -/
structure Device.BuiltFrom (ids : String → NameId) (text : String) (e : Device) (d : DeviceDecl) :
    Prop where
  id : e.id = ids d.name.text
  kind : e.kind.spelling = d.kind.text
  /-- Where a number is written, there are digits. -/
  digits : ∀ n ∈ d.qualifier, Text.digitsAt text n.pos ≠ []
  qualifier : e.qualifier = (d.written text).map fun n => ((min n (2 ^ 63 - 1) : Nat) : Int)
  /-- The qualifier is the number that is written, but for clocks beyond the limit. -/
  exact_iff : e.qualifier = (d.written text).map Nat.cast ↔
    ¬ (e.kind = .clock ∧ ∃ n ∈ d.written text, 2 ^ 63 - 1 < n)

theorem Device.MadeFrom.builtFrom {ids : String → NameId} {text : String} {e : Device}
    {d : DeviceDecl} {p : Position} (h : e.MadeFrom ids d)
    (hd : (.device d, p) ∈ (TokenStream.ofText text).declarations) : e.BuiltFrom ids text d := by
  obtain ⟨hdigits, hnumber⟩ := DeviceDecl.number_eq hd
  have hqualifier := h.qualifier.trans hnumber
  refine ⟨h.id, h.kind, hdigits, hqualifier, ?_⟩
  have hadmits := h.admits
  rw [hqualifier] at hadmits ⊢
  cases hwritten : d.written text with
  | none => simp
  | some n =>
      rw [hwritten] at hadmits
      by_cases hlarge : 2 ^ 63 - 1 < n
      · -- what is taken is the largest number, which only a clock admits
        have hmin : min n (2 ^ 63 - 1) = 2 ^ 63 - 1 := Nat.min_eq_right hlarge.le
        simp only [Option.map_some, hmin] at hadmits ⊢
        have hkind := DeviceKind.eq_clock_of_admits hadmits
        have hne : ((2 ^ 63 - 1 : Nat) : Int) ≠ n := by omega
        refine ⟨fun heq => absurd (Option.some.inj heq) hne, fun hexact => ?_⟩
        exact absurd ⟨hkind, n, rfl, hlarge⟩ hexact
      · have hmin : min n (2 ^ 63 - 1) = n := Nat.min_eq_left (Nat.le_of_not_lt hlarge)
        simp only [Option.map_some, hmin, true_iff]
        rintro ⟨-, m, hm, hlt⟩
        obtain rfl := Option.some.inj hm
        exact hlarge hlt

/--
**The number that is built is the number that is written, but for clocks beyond the limit.** The
devices of the circuit are made, one from each, from the declarations that were taken, in order.
Each has the name and the kind that its declaration says, and as its qualifier the number that is
written there or, where that is larger, the largest number there is. This differs from the number
that is written exactly if the device is a clock and the number is larger than that.
-/
theorem parse_numbers (names : NameTable) (text : String) :
    let start := Circuit.start names
    let r := parse start.1 start.2 text
    ∃ ds : List DeviceDecl,
      (ds.map Declaration.device).Sublist ((TokenStream.ofText text).declarations.map Prod.fst) ∧
        r.events.filterMap Event.made? =
          ds.map (fun d => (Declaration.device d).call r.names.idFor) ∧
        List.Forall₂ (Device.BuiltFrom r.names.idFor text) r.builder.devices ds := by
  obtain ⟨t, ht, hstart⟩ := Circuit.start_eq names
  rw [hstart]
  intro start r
  -- the names of the text come behind those of the catalogue
  obtain ⟨taken, hnames⟩ : ∃ taken, r.names = t.forFile taken := ⟨_, rfl⟩
  have hkinds : ∀ x, (Progress.start (Circuit.empty t)).builder.catalogue.kind? (r.names.idFor x) =
      DeviceKind.ofSpelling? x := by
    intro x
    rw [hnames, ← Catalogue.kind?_ofNames (ht.forFile taken), ht.ofNames_forFile]
    rfl
  have hsteps := @Progress.made_steps r.names.idFor (.start (Circuit.empty t)) [] hkinds .nil
    (Outline.ofStream (.ofText text)).items
  obtain ⟨ds, hsub, hmade⟩ := hsteps
  have hwritten : (ds.map Declaration.device).Sublist
      ((TokenStream.ofText text).declarations.map Prod.fst) := by
    refine hsub.trans ?_
    have hbuildable := Outline.buildable_ofStream (TokenStream.ordered_ofText text)
    rw [Progress.buildable, if_neg (by simp [Progress.start]), hbuildable]
    exact List.filter_sublist.map Prod.fst
  refine ⟨ds, hwritten, hmade.told, ?_⟩
  have hdevices := List.forall₂_iff_zip.mp hmade.devices
  refine List.forall₂_iff_zip.mpr ⟨hdevices.1, fun {e d} hmem => ?_⟩
  have hd : Declaration.device d ∈ (TokenStream.ofText text).declarations.map Prod.fst :=
    hwritten.subset (List.mem_map_of_mem (List.of_mem_zip hmem).2)
  obtain ⟨⟨x, p⟩, hdeclared, hx⟩ := List.mem_map.mp hd
  obtain rfl : x = .device d := hx
  exact (hdevices.2 hmem).builtFrom hdeclared

set_option maxRecDepth 2000 in
/-- A half period of 2 ^ 63 is built as one less. -/
theorem parse_clock_beyond_limit :
    let text := "DEVICES CLOCK,9223372036854775808=C; END CONNECTIONS END MONITOR END MAIN_END"
    let start := Circuit.start .empty
    let r := parse start.1 start.2 text
    r.ok = true ∧ r.builder.devices.map Device.kind = [.clock] ∧
      r.builder.devices.map Device.qualifier = [some 9223372036854775807] ∧
      Text.numberAt text ⟨1, 15⟩ = 9223372036854775808 := by
  intro text start r
  refine ⟨?_, ?_, ?_, ?_⟩
  · unfold r start text
    cbv
  · unfold r start text
    cbv
  · unfold r start text
    cbv
  · unfold text
    cbv

end LogicNet
