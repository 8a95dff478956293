import Mathlib
import LogicNet.Network.Scripted
import LogicNet.Proofs.Sentence

/-!
# What is left out is reported, and nothing else

Take the tokens of a sentence, and leave out what holds the file together: the `END` of some blocks,
some blocks altogether, and perhaps `MAIN_END`. Each omission is then reported once, at the symbol
that stands next, in the order of the file, and the blocks that are left are read as if nothing had
happened.

Omissions can meet: a block whose `END` is missing may be followed by one that is missing itself, so
that both are reported at the same symbol. They do not get in each other's way because whatever
stands next, the keyword of a block that was not entered or `MAIN_END`, is where recovery stops
without passing over anything.
-/

namespace LogicNet

open Text (Position)

/-! ## Sentences, block by block -/

namespace Sentence

/-- The declarations of a block of a sentence. -/
def block (s : Sentence) : Block → List Declaration
  | .devices => s.devices.map .device
  | .connections => s.connections.map .connection
  | .monitor => s.monitors.map .monitor

/-- The tokens of the blocks of a sentence, each from its keyword to its `END`. -/
structure Layout (s : Sentence) where
  ends : Block → Position
  tokens : Block → List Token
  lists : ∀ b : Block, b.Lists (s.block b) (ends b) (tokens b)
  ends_connections : ends .connections = s.connectionsEnd

/-- The tokens of a sentence are its blocks and `MAIN_END`. -/
theorem says_iff_exists_layout {s : Sentence} {ts : List Token} :
    s.Says ts ↔ ∃ (l : s.Layout) (mainEnd : Position),
      ts = Block.all.flatMap l.tokens ++ [⟨.keyword .mainEnd, mainEnd⟩] := by
  refine ⟨?_, ?_⟩
  · intro h
    obtain @⟨ds, cs, ms, devicesEnd, monitorEnd, mainEnd, hds, hcs, hms⟩ := h
    refine ⟨⟨fun b => b.casesOn devicesEnd s.connectionsEnd monitorEnd,
      fun b => b.casesOn ds cs ms, ?_, rfl⟩, mainEnd, ?_⟩
    · intro b
      cases b with
      | devices => exact hds
      | connections => exact hcs
      | monitor => exact hms
    · simp [Block.all]
  · intro h
    obtain ⟨l, mainEnd, rfl⟩ := h
    have hcs := l.lists .connections
    rw [l.ends_connections] at hcs
    simpa [Block.all] using Says.intro (l.lists .devices) hcs (l.lists .monitor)

end Sentence

/-! ## What is left out -/

/-- What is left out of a block. -/
inductive Omission where
  | nothing
  /-- The `END`. -/
  | ending
  /-- All of it. -/
  | block
deriving DecidableEq

namespace Omission

/-- What is left of the tokens of a block. -/
def left : Omission → List Token → List Token
  | nothing, ts => ts
  | ending, ts => ts.dropLast
  | block, _ => []

/-- The fault that an omission from `b` is, where `next` is the symbol behind it. -/
def faults (b : Block) (next : Symbol) : Omission → List FormFault
  | nothing => []
  | ending => [(.noEnd, next)]
  | block => [(b.missingError, next)]

/-- What a block that declares `ds`, and whose `END` stands at `last`, is then read as. -/
def items (b : Block) (ds : List Declaration) (last : Position) (next : Symbol) :
    Omission → List Item
  | nothing => Sentence.blockItems b ds last
  | ending => .opened b :: (ds.map .declared ++ [.fault .noEnd next])
  | block => [.fault b.missingError next]

/-- What is left out is all that is at fault. -/
theorem formFaults_items (b : Block) (ds : List Declaration) (last : Position) (next : Symbol)
    (o : Omission) : Item.formFaults (o.items b ds last next) = o.faults b next := by
  have hdeclared : Item.formFaults (ds.map .declared) = [] := by
    refine Item.formFaults_eq_nil fun item hitem => ?_
    obtain ⟨d, -, rfl⟩ := List.mem_map.mp hitem
    rfl
  cases o with
  | nothing =>
      rw [items, Sentence.blockItems, Item.formFaults_cons, Item.formFaults_append, hdeclared]
      rfl
  | ending =>
      rw [items, Item.formFaults_cons, Item.formFaults_append, hdeclared]
      rfl
  | block => cases b <;> rfl

end Omission

namespace Sentence.Layout

variable {s : Sentence} (l : s.Layout) (omitted : Block → Omission) (mainEnd : Option Position)
  (e : Ending)

/-- What is left of some blocks and of the end of the file. -/
def left : List Block → List Token
  | [] => (mainEnd.map fun p => ⟨.keyword .mainEnd, p⟩).toList
  | b :: bs => (omitted b).left (l.tokens b) ++ left bs

/-- A fault for each omission, at the first symbol that is left behind it. -/
def faults : List Block → List FormFault
  | [] => if mainEnd.isSome then [] else [(.noMainEnd, .eof e.stop)]
  | b :: bs => (omitted b).faults b (e.current (l.left omitted mainEnd bs)) ++ faults bs

/-- What some blocks and the end of the file are then read as. -/
def items : List Block → List Item
  | [] => if mainEnd.isSome then [] else [.fault .noMainEnd (.eof e.stop)]
  | b :: bs =>
    (omitted b).items b (s.block b) (l.ends b) (e.current (l.left omitted mainEnd bs)) ++ items bs

theorem formFaults_items (bs : List Block) :
    Item.formFaults (l.items omitted mainEnd e bs) = l.faults omitted mainEnd e bs := by
  induction bs with
  | nil => cases mainEnd <;> rfl
  | cons b bs ih => rw [items, Item.formFaults_append, Omission.formFaults_items, ih, faults]

/-- A block is its keyword, what stands in it, and its `END`. -/
theorem tokens_eq (b : Block) : ∃ p us, Form.Many b.Declares (s.block b) us ∧
    l.tokens b =
      ⟨.keyword b.keyword, p⟩ :: (us ++ [⟨.keyword .endBlock, l.ends b⟩]) := by
  have h := l.lists b
  generalize l.tokens b = ts at h ⊢
  obtain @⟨p, us, hds⟩ := h
  exact ⟨p, us, hds, rfl⟩

end Sentence.Layout

namespace Outline

variable {e : Ending} {entered bs : List Block} {b : Block} {ts : List Token}

/-! ## Where recovery stops at once -/

/-- Nothing is next, or the keyword of one of the blocks `bs`, or `MAIN_END`. -/
def Resumes (bs : List Block) (ts : List Token) : Prop :=
  ∀ t ∈ ts.head?, t.lexeme = .keyword .mainEnd ∨ ∃ b ∈ bs, t.lexeme = .keyword b.keyword

theorem Resumes.recoverOutOfBlock (h : Resumes bs ts) (hbs : ∀ b ∈ bs, b ∉ entered) :
    recoverOutOfBlock e entered ts = nothing ts := by
  cases ts with
  | nil => rfl
  | cons t ts =>
      rcases h t rfl with ht | ⟨b, hb, ht⟩
      · rw [Outline.recoverOutOfBlock, ht]
      · have hof : Block.ofKeyword? b.keyword = some b := Block.ofKeyword?_eq_some_iff.mpr rfl
        have hmain : b.keyword ≠ .mainEnd := by cases b <;> decide
        rw [Outline.recoverOutOfBlock, ht]
        split
        · next heq => exact absurd (Lexeme.keyword.inj heq) hmain
        · next k _ heq =>
          obtain rfl := Lexeme.keyword.inj heq
          simp [hof, hbs b hb]
        · next _ hother => exact absurd rfl (hother b.keyword)

theorem Resumes.not_keyword (h : Resumes bs ts) (hb : b ∉ bs) :
    ∀ t ∈ ts.head?, t.lexeme ≠ .keyword b.keyword := by
  intro t ht hlexeme
  rcases h t ht with hmain | ⟨b', hb', hkeyword⟩
  · rw [hmain] at hlexeme
    cases b <;> cases hlexeme
  · have hsame : b' = b := by
      rw [hkeyword] at hlexeme
      cases b <;> cases b' <;> first | rfl | cases hlexeme
    exact hb (hsame ▸ hb')

/-- Where a block is left out, that is noted, and the blocks behind it are read. -/
theorem Resumes.blocks (h : Resumes bs ts) (hbs : ∀ b ∈ bs, b ∉ entered) (hb : b ∉ bs) :
    blocks e entered (b :: bs) ts =
      (blocks e entered bs ts).behind [.fault b.missingError (e.current ts)] := by
  have hne : ts.head?.map Token.lexeme ≠ some (.keyword b.keyword) := by
    intro heq
    obtain ⟨t, ht, hlexeme⟩ := Option.map_eq_some_iff.mp heq
    exact h.not_keyword hb t ht hlexeme
  have hreport : report e entered b.missingError ts =
      (Outline.recoverOutOfBlock e entered ts).behind [.fault b.missingError (e.current ts)] := by
    cases b <;> rfl
  have hseek : seek e entered b ts = ⟨[.fault b.missingError (e.current ts)], ts⟩ := by
    rw [seek, if_neg hne, hreport, h.recoverOutOfBlock hbs]
    rfl
  rw [blocks_of_missing (by rw [hseek]; exact h.not_keyword hb), hseek]

/-- Where the `END` of a block is left out, that is noted, and nothing is passed over. -/
theorem Resumes.body (h : Resumes bs ts) :
    body e entered b ts = ⟨[.fault .noEnd (e.current ts)], ts⟩ := by
  cases ts with
  | nil => rw [body_nil]; rfl
  | cons t ts =>
      have hkeyword : ∃ k, t.lexeme = .keyword k ∧ k ≠ .endBlock := by
        rcases h t rfl with ht | ⟨b', -, ht⟩
        · exact ⟨_, ht, by decide⟩
        · exact ⟨_, ht, by cases b' <;> decide⟩
      obtain ⟨k, ht, hk⟩ := hkeyword
      rw [body_keyword ht hk]
      rfl

/-! ## Block by block -/

variable {s : Sentence} (l : s.Layout) (omitted : Block → Omission) (mainEnd : Option Position)

/-- Whatever is left out, the keyword of a block that is left is next, or `MAIN_END`, or the end. -/
theorem resumes_left (bs : List Block) : Resumes bs (l.left omitted mainEnd bs) := by
  induction bs with
  | nil => cases mainEnd <;> simp [Resumes, Sentence.Layout.left]
  | cons b bs ih =>
      obtain ⟨p, us, -, htokens⟩ := l.tokens_eq b
      have hnext : ∀ ts, Resumes (b :: bs) (⟨.keyword b.keyword, p⟩ :: ts) := by
        intro ts t ht
        obtain rfl := Option.some.inj ht
        exact .inr ⟨b, List.mem_cons_self, rfl⟩
      rw [Sentence.Layout.left, htokens]
      cases omitted b with
      | nothing => exact hnext _
      | ending =>
          rw [Omission.left, ← List.cons_append, List.dropLast_concat]
          exact hnext _
      | block =>
          intro t ht
          refine (ih t ht).imp_right fun hmore => ?_
          obtain ⟨b', hb', hkeyword⟩ := hmore
          exact ⟨b', List.mem_cons_of_mem b hb', hkeyword⟩

/-- **What is left of some blocks is read block by block.** -/
theorem items_blocks_left (hopen : e.openComment = none) (hfresh : (bs ++ entered).Nodup) :
    (blocks e entered bs (l.left omitted mainEnd bs)).items = l.items omitted mainEnd e bs := by
  have harrival := Ending.arrival_of_openComment_eq_none hopen
  induction bs generalizing entered with
  | nil => cases mainEnd <;> rfl
  | cons b bs ih =>
      obtain ⟨hb, hmore⟩ := List.nodup_cons.mp hfresh
      have hb : b ∉ bs := fun hmem => hb (List.mem_append_left entered hmem)
      have hentered : ∀ b' ∈ bs, b' ∉ entered := List.disjoint_of_nodup_append hmore
      have hopened : (bs ++ b :: entered).Nodup := List.nodup_middle.mpr hfresh
      have hresumes := resumes_left l omitted mainEnd bs
      rw [Sentence.Layout.left, Sentence.Layout.items]
      cases omitted b with
      | nothing =>
          rw [Omission.left, blocks_of_lists (l.lists b) (harrival _), items_behind,
            ih hopened]
          rfl
      | ending =>
          obtain ⟨p, us, hds, htokens⟩ := l.tokens_eq b
          rw [Omission.left, htokens, ← List.cons_append, List.dropLast_concat, List.cons_append,
            blocks_of_keyword rfl, body_declarations hds (harrival _), hresumes.body, harrival]
          have hrest := ih hopened
          simpa [behind, Omission.items] using hrest
      | block =>
          rw [Omission.left, List.nil_append, hresumes.blocks hentered hb, items_behind,
            ih hmore]
          rfl

end Outline

/--
**Each omission is reported once, and nothing else is.** Whatever `END`s and whole blocks are left
out of the tokens of a sentence, and whether `MAIN_END` is: the faults of form are one for each
omission, in order, at the first symbol that is left behind it. Every block that is left is entered,
and all its declarations are read.
-/
theorem parse_omissions {β : Type} [NetworkBuilder β] (names : NameTable) (builder : β)
    {text : String} {s : Sentence} (l : s.Layout) (omitted : Block → Omission)
    (mainEnd : Option Position) {e : Ending} (hopen : e.openComment = none)
    (htext : TokenStream.ofText text = ⟨l.left omitted mainEnd Block.all, e⟩) :
    (parse names builder text).formFaults = l.faults omitted mainEnd e Block.all ∧
      (Outline.ofStream (.ofText text)).items = l.items omitted mainEnd e Block.all := by
  have hitems : (Outline.ofStream (.ofText text)).items = l.items omitted mainEnd e Block.all := by
    rw [htext, Outline.ofStream, Outline.items_behind,
      Outline.items_blocks_left l omitted mainEnd hopen (by decide),
      Ending.arrival_of_openComment_eq_none hopen]
    rfl
  refine ⟨?_, hitems⟩
  rw [Parsed.formFaults_parse, hitems, l.formFaults_items]

/-- A sentence with a device that is connected to itself, and nothing to watch. -/
def Sentence.loop : Sentence where
  devices := [⟨⟨"X", ⟨1, 9⟩⟩, none, ⟨"A", ⟨1, 11⟩⟩⟩]
  connections := [⟨⟨"A", ⟨1, 26⟩⟩, none, ⟨"A", ⟨1, 28⟩⟩, ⟨"B", ⟨1, 30⟩⟩⟩]
  connectionsEnd := ⟨1, 33⟩
  monitors := []

/-- Its tokens. -/
def Sentence.loopLayout : Sentence.loop.Layout where
  ends
    | .devices => ⟨1, 13⟩
    | .connections => ⟨1, 33⟩
    | .monitor => ⟨1, 45⟩
  tokens
    | .devices => ⟨.keyword .devices, ⟨1, 1⟩⟩ ::
        ([⟨.name "X", ⟨1, 9⟩⟩, ⟨.equals, ⟨1, 10⟩⟩, ⟨.name "A", ⟨1, 11⟩⟩, ⟨.semicolon, ⟨1, 12⟩⟩] ++
          [⟨.keyword .endBlock, ⟨1, 13⟩⟩])
    | .connections => ⟨.keyword .connections, ⟨1, 14⟩⟩ ::
        ([⟨.name "A", ⟨1, 26⟩⟩, ⟨.dash, ⟨1, 27⟩⟩, ⟨.name "A", ⟨1, 28⟩⟩, ⟨.dot, ⟨1, 29⟩⟩,
          ⟨.name "B", ⟨1, 30⟩⟩, ⟨.semicolon, ⟨1, 31⟩⟩] ++ [⟨.keyword .endBlock, ⟨1, 33⟩⟩])
    | .monitor => ⟨.keyword .monitor, ⟨1, 37⟩⟩ :: ([] ++ [⟨.keyword .endBlock, ⟨1, 45⟩⟩])
  lists
    | .devices => ⟨.singleton .device⟩
    | .connections => ⟨.singleton .connection⟩
    | .monitor => ⟨.nil⟩
  ends_connections := rfl

set_option maxRecDepth 2000 in
/-- The `END` of a block, a whole block and `MAIN_END` are left out. -/
theorem formFaults_three_omissions :
    let text := "DEVICES X=A; CONNECTIONS A-A.B; END"
    let e : Ending := ⟨none, ⟨1, 36⟩⟩
    let omitted : Block → Omission
      | .devices => .ending
      | .connections => .nothing
      | .monitor => .block
    let builder : Scripted := ⟨[], [], [], true⟩
    e.openComment = none ∧
      TokenStream.ofText text = ⟨Sentence.loopLayout.left omitted none Block.all, e⟩ ∧
      (parse .empty builder text).formFaults =
        [(.noEnd, .token ⟨.keyword .connections, ⟨1, 14⟩⟩), (.expectedMonitor, .eof ⟨1, 36⟩),
          (.noMainEnd, .eof ⟨1, 36⟩)] := by
  intro text e omitted builder
  have htext : TokenStream.ofText text =
      ⟨Sentence.loopLayout.left omitted none Block.all, e⟩ := by
    unfold text e omitted
    cbv
  exact ⟨rfl, htext, (parse_omissions .empty builder Sentence.loopLayout omitted none rfl htext).1⟩

end LogicNet
