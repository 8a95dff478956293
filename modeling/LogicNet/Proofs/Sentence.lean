import Mathlib
import LogicNet.Network.Scripted
import LogicNet.Proofs.Faults

/-!
# Reading finds no fault exactly in the sentences of the grammar

Both directions go block by block. A block of the grammar is read item by item and without a fault,
whatever stands behind it. The other way round, a block that is read without a fault was one of the
grammar, since every other token that can turn up is reported: a broken declaration where it breaks,
a surplus semicolon, a stray token, a missing `END`. A block that is missing is reported before
anything is skipped in its place.

What stands behind `MAIN_END` is never looked at, so that two texts that begin with the same
sentence are parsed to the same result.
-/

namespace LogicNet

open Text (Position)

namespace Outline

variable {e : Ending} {entered : List Block} {b : Block}

/-! ## Sentences are read without a fault -/

/-- Declarations are read one after the other, whatever stands behind them. -/
theorem body_declarations {ds : List Declaration} {ts : List Token}
    (h : Form.Many b.Declares ds ts) {rest : List Token} (hrest : e.arrival rest = []) :
    body e entered b (ts ++ rest) = (body e entered b rest).behind (ds.map .declared) := by
  induction h with
  | nil => rfl
  | @cons d ds ts us hd _ ih =>
      obtain ⟨w, vs, rfl⟩ := hd.eq_cons
      have hread : declaration e entered b w (vs ++ (us ++ rest)) = _ :=
        declaration_of_declares hd _
      rw [List.append_assoc, List.cons_append, body_word, hread, Ending.arrival_append hrest us, ih]
      rfl

theorem body_of_many {ds : List Declaration} {ts : List Token}
    (h : Form.Many b.Declares ds ts) {last : Token} (hlast : last.lexeme = .keyword .endBlock)
    (rest : List Token) :
    body e entered b (ts ++ last :: rest) =
      ⟨ds.map .declared ++ .closed b last :: e.arrival rest, rest⟩ := by
  rw [body_declarations h (Ending.arrival_of_ne_nil (by simp)), body_end hlast]
  rfl

theorem seek_of_keyword {t : Token} (h : t.lexeme = .keyword b.keyword) (ts : List Token) :
    seek e entered b (t :: ts) = nothing (t :: ts) := by
  simp [seek, h]

theorem blocks_of_keyword {bs : List Block} {t : Token} (h : t.lexeme = .keyword b.keyword)
    (ts : List Token) :
    blocks e entered (b :: bs) (t :: ts) =
      (blocks e (b :: entered) bs (body e (b :: entered) b ts).rest).behind
        (e.arrival ts ++ .opened b :: (body e (b :: entered) b ts).items) := by
  rw [blocks, seek_of_keyword h]
  simp [h]

theorem blocks_of_lists {bs : List Block} {ds : List Declaration} {last : Position}
    {ts : List Token} (h : b.Lists ds last ts) {rest : List Token} (hrest : e.arrival rest = []) :
    blocks e entered (b :: bs) (ts ++ rest) =
      (blocks e (b :: entered) bs rest).behind
        (.opened b :: (ds.map .declared ++ [.closed b ⟨.keyword .endBlock, last⟩])) := by
  obtain @⟨p, us, hds⟩ := h
  have hbody : body e (b :: entered) b (us ++ ⟨.keyword .endBlock, last⟩ :: rest) = _ :=
    body_of_many hds rfl rest
  rw [List.cons_append, List.append_assoc, List.singleton_append, blocks_of_keyword rfl, hbody,
    hrest, Ending.arrival_of_ne_nil (by simp)]
  rfl

theorem blocks_nil_of_mainEnd {t : Token} (h : t.lexeme = .keyword .mainEnd) (ts : List Token) :
    blocks e entered [] (t :: ts) = nothing (t :: ts) := by
  simp [blocks, h]

end Outline

namespace Sentence

/-- The items that a block of good form is read as. -/
def blockItems (b : Block) (ds : List Declaration) (last : Position) : List Item :=
  .opened b :: (ds.map .declared ++ [.closed b ⟨.keyword .endBlock, last⟩])

/-- The items that a file of good form is read as. -/
def items (s : Sentence) (devicesEnd monitorEnd : Position) : List Item :=
  blockItems .devices (s.devices.map .device) devicesEnd ++
    blockItems .connections (s.connections.map .connection) s.connectionsEnd ++
    blockItems .monitor (s.monitors.map .monitor) monitorEnd

/-- **A sentence is read item by item, up to its last token.** -/
theorem Says.ofStream {s : Sentence} {ts : List Token} (h : s.Says ts) :
    ∃ devicesEnd monitorEnd us mainEnd, ts = us ++ [⟨.keyword .mainEnd, mainEnd⟩] ∧
      ∀ (stream : TokenStream) (rest : List Token), stream.tokens = ts ++ rest →
        Outline.ofStream stream =
          ⟨s.items devicesEnd monitorEnd, ⟨.keyword .mainEnd, mainEnd⟩ :: rest⟩ := by
  obtain @⟨ds, cs, ms, devicesEnd, monitorEnd, mainEnd, hds, hcs, hms⟩ := h
  refine ⟨devicesEnd, monitorEnd, ds ++ cs ++ ms, mainEnd, rfl, ?_⟩
  intro stream rest hstream
  have htokens : stream.tokens = ds ++ (cs ++ (ms ++ (⟨.keyword .mainEnd, mainEnd⟩ :: rest))) := by
    simpa using hstream
  rw [Outline.ofStream, Ending.arrival_of_ne_nil (by simp [hstream]), htokens, Block.all,
    Outline.blocks_of_lists hds (Ending.arrival_of_ne_nil (by simp)),
    Outline.blocks_of_lists hcs (Ending.arrival_of_ne_nil (by simp)),
    Outline.blocks_of_lists hms (Ending.arrival_of_ne_nil (by simp)),
    Outline.blocks_nil_of_mainEnd rfl]
  simp [Outline.behind, Outline.nothing, items, blockItems]

theorem formFaults_items (s : Sentence) (devicesEnd monitorEnd : Position) :
    Item.formFaults (s.items devicesEnd monitorEnd) = [] := by
  apply Item.formFaults_eq_nil
  intro item hitem
  simp only [items, blockItems, List.mem_append, List.mem_cons, List.mem_map, List.not_mem_nil,
    or_false] at hitem
  rcases hitem with ((rfl | ⟨d, -, rfl⟩ | rfl) | rfl | ⟨d, -, rfl⟩ | rfl) | rfl | ⟨d, -, rfl⟩ | rfl
  all_goals rfl

end Sentence

/-! ## What is read without a fault is a sentence -/

namespace Outline

variable {e : Ending} {entered : List Block} {b : Block}

/-- A block that is read without a fault is a list of declarations up to an `END`. -/
theorem many_of_formFaults_body {ts : List Token}
    (h : Item.formFaults (body e entered b ts).items = []) :
    ∃ ds us p rest, Form.Many b.Declares ds us ∧ ts = us ++ ⟨.keyword .endBlock, p⟩ :: rest := by
  induction ts using body_cases e entered b with
  | nil =>
      rw [body_nil] at h
      exact absurd h (formFaults_report_ne_nil (by simp) _)
  | word w ts ih =>
      rw [body_word, items_behind, Item.formFaults_append, List.append_eq_nil_iff] at h
      rcases declaration_cases e entered b w ts with ⟨d, us, rest, hd, rfl, hread⟩ |
        ⟨-, error, pre, rest, herror, -, -, -, hread⟩
      · rw [hread] at h ih
        obtain ⟨ds, vs, p, rest', hds, rfl⟩ := ih h.2
        exact ⟨d :: ds, (w.token :: us) ++ vs, p, rest', .cons hd hds, by simp⟩
      · -- a broken declaration is reported
        rw [hread, items_behind, Item.formFaults_append, List.append_eq_nil_iff] at h
        exact absurd h.1.2 (formFaults_report_ne_nil herror.ne_incompleteNetwork _)
  | closed t ts ht =>
      obtain ⟨lexeme, p⟩ := t
      obtain rfl : lexeme = .keyword .endBlock := ht
      exact ⟨[], [], p, ts, .nil, rfl⟩
  | keyword t ts k ht hk =>
      rw [body_keyword ht hk] at h
      exact absurd h (formFaults_report_ne_nil (by simp) _)
  | semicolon t ts ht _ =>
      rw [body_semicolon ht, items_behind, List.cons_append, Item.formFaults_cons] at h
      exact absurd (List.append_eq_nil_iff.mp h).1 (by simp [Item.formFaults, Item.fault?,
        LogicNet.formFaults, Diagnostic.formFault?])
  | stray t ts ht _ =>
      rw [body_stray ht, items_behind, Item.formFaults_append, List.append_eq_nil_iff] at h
      exact absurd h.1 (formFaults_report_ne_nil b.strayError_inDeclaration.ne_incompleteNetwork _)

/-- Where a block is missing, that is reported first. -/
theorem formFaults_blocks_ne_nil {bs : List Block} {ts : List Token}
    (h : ts.head?.map Token.lexeme ≠ some (.keyword b.keyword)) :
    Item.formFaults (blocks e entered (b :: bs) ts).items ≠ [] := by
  have hseek : seek e entered b ts = report e entered b.missingError ts := by
    simp [seek, h]
  have hfault : Item.formFaults (report e entered b.missingError ts).items ≠ [] :=
    formFaults_report_ne_nil b.missingError_ne_incompleteNetwork ts
  rw [blocks, hseek]
  split
  · simp [hfault]
  · split <;> simp [hfault]

/-- A block of a file that is read without a fault is one of the grammar. -/
theorem lists_of_formFaults_blocks {bs : List Block} {ts : List Token}
    (h : Item.formFaults (blocks e entered (b :: bs) ts).items = []) :
    ∃ ds last us rest, b.Lists ds last us ∧ ts = us ++ rest ∧
      Item.formFaults (blocks e (b :: entered) bs rest).items = [] := by
  cases ts with
  | nil => exact absurd h (formFaults_blocks_ne_nil (by simp))
  | cons t ts =>
      rcases Decidable.em (t.lexeme = .keyword b.keyword) with ht | ht
      · -- the block is entered; the faults of its body and of what follows are reported apart
        rw [blocks_of_keyword ht] at h
        rw [items_behind, Item.formFaults_append, List.append_eq_nil_iff, Item.formFaults_append,
          List.append_eq_nil_iff, Item.formFaults_cons, List.append_eq_nil_iff] at h
        obtain ⟨⟨-, -, hbody⟩, hrest⟩ := h
        obtain ⟨ds, us, p, rest, hds, rfl⟩ := many_of_formFaults_body hbody
        rw [body_of_many hds rfl] at hrest
        obtain ⟨lexeme, q⟩ := t
        obtain rfl : lexeme = .keyword b.keyword := ht
        exact ⟨ds, p, ⟨.keyword b.keyword, q⟩ :: (us ++ [⟨.keyword .endBlock, p⟩]), rest, ⟨hds⟩,
          by simp, hrest⟩
      · exact absurd h (formFaults_blocks_ne_nil (by simpa using ht))

theorem mainEnd_of_formFaults_blocks {ts : List Token}
    (h : Item.formFaults (blocks e entered [] ts).items = []) :
    ∃ p rest, ts = ⟨.keyword .mainEnd, p⟩ :: rest := by
  rw [blocks] at h
  split at h
  · next hts =>
    obtain ⟨t, ht, hlexeme⟩ := Option.map_eq_some_iff.mp hts
    obtain ⟨rest, rfl⟩ := List.head?_eq_some_iff.mp ht
    exact ⟨t.pos, rest, by rw [← hlexeme]⟩
  · exact absurd h (formFaults_report_ne_nil (by simp) _)

/-- **A file that is read without a fault begins with a sentence.** -/
theorem says_of_formFaults_ofStream {stream : TokenStream}
    (h : Item.formFaults (ofStream stream).items = []) :
    ∃ (s : Sentence) (ts : List Token), s.Says ts ∧ ts <+: stream.tokens := by
  rw [ofStream, items_behind, Item.formFaults_append, List.append_eq_nil_iff, Block.all] at h
  obtain ⟨ds, dEnd, dts, rest₁, hds, heq₁, h₁⟩ := lists_of_formFaults_blocks h.2
  obtain ⟨cs, cEnd, cts, rest₂, hcs, heq₂, h₂⟩ := lists_of_formFaults_blocks h₁
  obtain ⟨ms, mEnd, mts, rest₃, hms, heq₃, h₃⟩ := lists_of_formFaults_blocks h₂
  obtain ⟨p, rest, heq⟩ := mainEnd_of_formFaults_blocks h₃
  obtain ⟨devices, rfl⟩ := hds.eq_map Block.Declares.eq_device
  obtain ⟨connections, rfl⟩ := hcs.eq_map Block.Declares.eq_connection
  obtain ⟨monitors, rfl⟩ := hms.eq_map Block.Declares.eq_monitor
  refine ⟨⟨devices, connections, cEnd, monitors⟩, _, @Sentence.Says.intro
    ⟨devices, connections, cEnd, monitors⟩ dts cts mts dEnd mEnd p hds hcs hms, rest, ?_⟩
  rw [heq₁, heq₂, heq₃, heq]
  simp

end Outline

namespace Sentence

theorem blockItems_append_inj {b : Block} {ds ds' : List Declaration} {last last' : Position}
    {items items' : List Item}
    (h : blockItems b ds last ++ items = blockItems b ds' last' ++ items') :
    ds = ds' ∧ last = last' ∧ items = items' := by
  induction ds generalizing ds' with
  | nil =>
      cases ds' with
      | nil => simpa [blockItems] using h
      | cons d' ds' => simp [blockItems] at h
  | cons d ds ih =>
      cases ds' with
      | nil => simp [blockItems] at h
      | cons d' ds' =>
          simp only [blockItems, List.map_cons, List.cons_append, List.cons.injEq,
            Item.declared.injEq, true_and] at h
          obtain ⟨rfl, htail⟩ := h
          have hnext : blockItems b ds last ++ items = blockItems b ds' last' ++ items' := by
            simp only [blockItems, List.cons_append, htail]
          obtain ⟨rfl, hlast, hitems⟩ := ih hnext
          exact ⟨rfl, hlast, hitems⟩

theorem items_inj {s s' : Sentence} {devicesEnd devicesEnd' monitorEnd monitorEnd' : Position}
    (h : s.items devicesEnd monitorEnd = s'.items devicesEnd' monitorEnd') : s = s' := by
  rw [items, items, List.append_assoc, List.append_assoc] at h
  obtain ⟨hdevices, -, h⟩ := blockItems_append_inj h
  obtain ⟨hconnections, hlast, h⟩ := blockItems_append_inj h
  rw [← List.append_nil (blockItems .monitor _ monitorEnd),
    ← List.append_nil (blockItems .monitor _ monitorEnd')] at h
  obtain ⟨hmonitors, -, -⟩ := blockItems_append_inj h
  obtain ⟨devices, connections, last, monitors⟩ := s
  obtain ⟨devices', connections', last', monitors'⟩ := s'
  simp only [mk.injEq]
  refine ⟨?_, ?_, hlast, ?_⟩
  · exact (List.map_inj_right fun _ _ heq => Declaration.device.inj heq).mp hdevices
  · exact (List.map_inj_right fun _ _ heq => Declaration.connection.inj heq).mp hconnections
  · exact (List.map_inj_right fun _ _ heq => Declaration.monitor.inj heq).mp hmonitors

/-- **What is read as the items of a sentence is the sentence.** -/
theorem says_of_items {s : Sentence} {devicesEnd monitorEnd : Position} {stream : TokenStream}
    (h : (Outline.ofStream stream).items = s.items devicesEnd monitorEnd) :
    ∃ ts, s.Says ts ∧ stream.BeginsWith ts := by
  have hnone : Item.formFaults (Outline.ofStream stream).items = [] := by
    rw [h]
    exact s.formFaults_items devicesEnd monitorEnd
  -- some sentence is read, and its items tell which
  obtain ⟨s', ts, hs', hpre⟩ := Outline.says_of_formFaults_ofStream hnone
  obtain ⟨devicesEnd', monitorEnd', us, mainEnd, -, hread⟩ := hs'.ofStream
  obtain ⟨rest, hrest⟩ := hpre
  have hitems : s.items devicesEnd monitorEnd = s'.items devicesEnd' monitorEnd' := by
    rw [← h, hread stream rest hrest.symm]
  obtain rfl := items_inj hitems
  exact ⟨ts, hs', TokenStream.beginsWith_iff.mpr ⟨rest, hrest⟩⟩
end Sentence

/-! ## The two directions together -/

/-- The names that are entered for a file, in a table that may hold others. -/
def NameTable.forFile (names : NameTable) (ts : List Token) : NameTable :=
  (names.internAll Keyword.spellings).internAll (ts.filterMap Token.name?)

/-- A name that was entered keeps its number when a file is read. -/
theorem NameTable.idFor_forFile_of_mem {t : NameTable} {x : String} (h : x ∈ t.names)
    (ts : List Token) : (t.forFile ts).idFor x = t.idFor x := by
  rw [forFile, idFor_internAll_of_mem (mem_names_internAll.mpr (.inl h)), idFor_internAll_of_mem h]

theorem Sentence.Says.mem_forFile {s : Sentence} {ts : List Token} (h : s.Says ts)
    {d : Declaration} (hd : d ∈ s.declarations) {w : Word} (hw : w ∈ d.words) (names : NameTable) :
    w.text ∈ (names.forFile ts).names :=
  NameTable.mem_names_internAll.mpr
    (.inr (List.mem_filterMap.mpr ⟨w.token, h.mem_words hd hw, rfl⟩))

/-- The names before `MAIN_END` are the names up to it, since it holds no name itself. -/
theorem TokenStream.namesBefore_mainEnd {stream : TokenStream} {us rest : List Token}
    {mainEnd : Position} (h : stream.tokens = us ++ [⟨.keyword .mainEnd, mainEnd⟩] ++ rest) :
    stream.namesBefore (⟨.keyword .mainEnd, mainEnd⟩ :: rest) =
      (us ++ [(⟨.keyword .mainEnd, mainEnd⟩ : Token)]).filterMap Token.name? := by
  rw [namesBefore, h, List.append_assoc, List.singleton_append, List.length_append,
    Nat.add_sub_cancel, List.take_left, List.filterMap_append]
  exact (List.append_nil _).symm

/-- **What is parsed behind a sentence is the sentence**, and nothing else of the text. -/
theorem Sentence.Says.parse_eq {s : Sentence} {ts : List Token} (h : s.Says ts) :
    ∃ devicesEnd monitorEnd mainEnd, ∀ {β : Type} [NetworkBuilder β] (names : NameTable)
      (builder : β) (text : String), (TokenStream.ofText text).BeginsWith ts →
        let built := (Progress.start builder).steps (names.forFile ts).idFor
          (s.items devicesEnd monitorEnd)
        parse names builder text =
          ⟨names.forFile ts, built.2.builder, built.1, .token ⟨.keyword .mainEnd, mainEnd⟩⟩ := by
  obtain ⟨devicesEnd, monitorEnd, us, mainEnd, rfl, hread⟩ := h.ofStream
  refine ⟨devicesEnd, monitorEnd, mainEnd, ?_⟩
  intro β _ names builder text htext
  obtain ⟨rest, hrest⟩ := TokenStream.beginsWith_iff.mp htext
  simp only [parse, hread _ _ hrest.symm, TokenStream.namesBefore_mainEnd hrest.symm]
  rfl

/--
**A parse reports no fault of form exactly if the symbols of the text begin with a sentence of the
grammar**, whatever the builder answers. Every text that begins with the same sentence is then
parsed to the same result.
-/
theorem parse_without_formFaults_iff {β : Type} [NetworkBuilder β] (names : NameTable) (builder : β)
    (text : String) :
    ((parse names builder text).formFaults = [] ↔
      ∃ (s : Sentence) (ts : List Token), s.Says ts ∧ (TokenStream.ofText text).BeginsWith ts) ∧
    ∀ (s : Sentence) (ts : List Token) (other : String), s.Says ts →
      (TokenStream.ofText text).BeginsWith ts → (TokenStream.ofText other).BeginsWith ts →
      parse names builder other = parse names builder text := by
  refine ⟨⟨?_, ?_⟩, ?_⟩
  · intro h
    rw [Parsed.formFaults_parse] at h
    obtain ⟨s, ts, hs, hts⟩ := Outline.says_of_formFaults_ofStream h
    exact ⟨s, ts, hs, TokenStream.beginsWith_iff.mpr hts⟩
  · intro h
    obtain ⟨s, ts, hs, hts⟩ := h
    obtain ⟨devicesEnd, monitorEnd, us, mainEnd, -, hread⟩ := hs.ofStream
    obtain ⟨rest, hrest⟩ := TokenStream.beginsWith_iff.mp hts
    rw [Parsed.formFaults_parse, hread _ _ hrest.symm]
    exact s.formFaults_items devicesEnd monitorEnd
  · intro s ts other hs htext hother
    obtain ⟨devicesEnd, monitorEnd, mainEnd, hparse⟩ := hs.parse_eq
    rw [hparse names builder text htext, hparse names builder other hother]

set_option maxRecDepth 2000 in
/-- A file with nothing in its blocks is of good form, whatever is written behind it. -/
theorem parse_empty_blocks :
    let text := "DEVICES END CONNECTIONS END MONITOR END MAIN_END"
    let other := "DEVICES END CONNECTIONS END MONITOR END MAIN_END ; MONITOR A ="
    let builder : Scripted := ⟨[], [], [], false⟩
    (parse .empty builder text).formFaults = [] ∧
      parse .empty builder other = parse .empty builder text := by
  intro text other builder
  have hitems : (Outline.ofStream (.ofText text)).items =
      Sentence.items ⟨[], [], ⟨1, 25⟩, []⟩ ⟨1, 9⟩ ⟨1, 37⟩ := by
    unfold text
    cbv
  obtain ⟨ts, hs, htext⟩ := Sentence.says_of_items hitems
  have hmore : (TokenStream.ofText text).tokens <+: (TokenStream.ofText other).tokens := by
    refine ⟨[⟨.semicolon, ⟨1, 50⟩⟩, ⟨.keyword .monitor, ⟨1, 52⟩⟩, ⟨.name "A", ⟨1, 60⟩⟩,
      ⟨.equals, ⟨1, 62⟩⟩], ?_⟩
    unfold text other
    cbv
  have hother : (TokenStream.ofText other).BeginsWith ts :=
    TokenStream.beginsWith_iff.mpr ((TokenStream.beginsWith_iff.mp htext).trans hmore)
  exact ⟨(parse_without_formFaults_iff .empty builder text).1.mpr ⟨_, ts, hs, htext⟩,
    (parse_without_formFaults_iff .empty builder text).2 _ ts other hs htext hother⟩

end LogicNet
