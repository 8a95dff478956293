import LogicNet.Outline.Declaration
import LogicNet.Token.Stream

/-!
# The grammar of definition files

What the form of a file is, said without a reader. A form tells which stretches of tokens say which
value; the forms of the language are those of its grammar, one case for each alternative of a
production:

* a declaration of each block, with or without its optional part;
* a block, which is its keyword, declarations one after the other, and `END`;
* a file, which is the three blocks in their order, and `MAIN_END`.

Marks and keywords may stand anywhere, names and numbers stand where the value says. A stretch of
tokens is a beginning of a form when something of the form starts with it, which is what decides
where a reader must notice that a declaration has gone wrong.
-/

namespace LogicNet

open Text (Position)

/-- The token that a name is. -/
def Word.token (w : Word) : Token := ⟨.name w.text, w.pos⟩

theorem Word.token_inj {v w : Word} : v.token = w.token ↔ v = w := by
  cases v
  cases w
  simp [Word.token]

/-- The token that a number is. -/
def Numeral.token (n : Numeral) : Token := ⟨.number n.value, n.pos⟩

/-- Whether a token closes a declaration, or the block that it is in. -/
def Token.Closes (t : Token) : Prop := t.lexeme = .semicolon ∨ t.lexeme = .keyword .endBlock

/-- The names in a declaration. -/
def Declaration.words : Declaration → List Word
  | .device d => [d.kind, d.name]
  | .connection d => d.outDevice :: d.outPin.toList ++ [d.inDevice, d.inPin]
  | .monitor d => d.device :: d.pin.toList

/-- Which stretches of tokens say which value. -/
abbrev Form (α : Type) := α → List Token → Prop

namespace Form

/-- Something of the form starts with `ts`. -/
def Begins {α : Type} (F : Form α) (ts : List Token) : Prop := ∃ a us, F a (ts ++ us)

/-- Values that are said one after the other. -/
inductive Many {α τ : Type} (F : α → List τ → Prop) : List α → List τ → Prop
  | nil : Many F [] []
  | cons {a : α} {as : List α} {ts us : List τ} :
      F a ts → Many F as us → Many F (a :: as) (ts ++ us)

theorem Many.singleton {α τ : Type} {F : α → List τ → Prop} {a : α} {ts : List τ} (h : F a ts) :
    Many F [a] ts := by
  simpa using Many.cons h .nil

theorem Many.append {α τ : Type} {F : α → List τ → Prop} {as bs : List α} {ts us : List τ}
    (h : Many F as ts) (h' : Many F bs us) : Many F (as ++ bs) (ts ++ us) := by
  induction h with
  | nil => exact h'
  | cons ha _ ih =>
      rw [List.cons_append, List.append_assoc]
      exact .cons ha ih

theorem Many.mem {α τ : Type} {F : α → List τ → Prop} {as : List α} {ts : List τ}
    (h : Many F as ts) {a : α} (ha : a ∈ as) : ∃ us, F a us ∧ us ⊆ ts := by
  induction h with
  | nil => exact absurd ha List.not_mem_nil
  | @cons b bs us vs hb _ ih =>
      rcases List.mem_cons.mp ha with rfl | ha
      · exact ⟨us, hb, List.subset_append_left us vs⟩
      · obtain ⟨ws, hws, hsub⟩ := ih ha
        exact ⟨ws, hws, fun t ht => List.mem_append_right us (hsub ht)⟩

/-- If only values `f x` have a form, lists of the form are lists of such values. -/
theorem Many.eq_map {α β : Type} {F : Form α} {f : β → α} (hf : ∀ {a ts}, F a ts → ∃ x, a = f x)
    {as : List α} {ts : List Token} (h : Many F as ts) : ∃ xs : List β, as = xs.map f := by
  induction h with
  | nil => exact ⟨[], rfl⟩
  | cons ha _ ih =>
      obtain ⟨x, rfl⟩ := hf ha
      obtain ⟨xs, rfl⟩ := ih
      exact ⟨x :: xs, rfl⟩

end Form

/-! ## Declarations -/

/-- The declarations of a block, and the tokens that say them. -/
inductive Block.Declares : Block → Declaration → List Token → Prop
  | device {kind name : Word} {equals semicolon : Position} :
      Declares .devices (.device ⟨kind, none, name⟩)
        [kind.token, ⟨.equals, equals⟩, name.token, ⟨.semicolon, semicolon⟩]
  | qualifiedDevice {kind name : Word} {n : Numeral} {comma equals semicolon : Position} :
      Declares .devices (.device ⟨kind, some n, name⟩)
        [kind.token, ⟨.comma, comma⟩, n.token, ⟨.equals, equals⟩, name.token,
          ⟨.semicolon, semicolon⟩]
  | connection {outDevice inDevice inPin : Word} {dash dot semicolon : Position} :
      Declares .connections (.connection ⟨outDevice, none, inDevice, inPin⟩)
        [outDevice.token, ⟨.dash, dash⟩, inDevice.token, ⟨.dot, dot⟩, inPin.token,
          ⟨.semicolon, semicolon⟩]
  | pinConnection {outDevice outPin inDevice inPin : Word} {outDot dash dot semicolon : Position} :
      Declares .connections (.connection ⟨outDevice, some outPin, inDevice, inPin⟩)
        [outDevice.token, ⟨.dot, outDot⟩, outPin.token, ⟨.dash, dash⟩, inDevice.token, ⟨.dot, dot⟩,
          inPin.token, ⟨.semicolon, semicolon⟩]
  | monitor {device : Word} {semicolon : Position} :
      Declares .monitor (.monitor ⟨device, none⟩) [device.token, ⟨.semicolon, semicolon⟩]
  | pinMonitor {device pin : Word} {dot semicolon : Position} :
      Declares .monitor (.monitor ⟨device, some pin⟩)
        [device.token, ⟨.dot, dot⟩, pin.token, ⟨.semicolon, semicolon⟩]

namespace Block

/-- Some declaration of the block starts with `ts`. -/
def Begins (b : Block) (ts : List Token) : Prop := Form.Begins b.Declares ts

/-- Each block has declarations, so nothing at all begins one. -/
theorem begins_nil (b : Block) : b.Begins [] := by
  -- any name will do
  have w : Word := ⟨"", .start⟩
  cases b with
  | devices => exact ⟨_, _, @Declares.device w w .start .start⟩
  | connections => exact ⟨_, _, @Declares.connection w w w .start .start .start⟩
  | monitor => exact ⟨_, _, @Declares.monitor w .start⟩

theorem Declares.eq_cons {b : Block} {d : Declaration} {ts : List Token} (h : b.Declares d ts) :
    ∃ (w : Word) (us : List Token), ts = w.token :: us := by
  cases h <;> exact ⟨_, _, rfl⟩

theorem Declares.eq_device {d : Declaration} {ts : List Token} (h : Block.devices.Declares d ts) :
    ∃ x, d = .device x := by
  cases h <;> exact ⟨_, rfl⟩

theorem Declares.eq_connection {d : Declaration} {ts : List Token}
    (h : Block.connections.Declares d ts) : ∃ x, d = .connection x := by
  cases h <;> exact ⟨_, rfl⟩

theorem Declares.eq_monitor {d : Declaration} {ts : List Token} (h : Block.monitor.Declares d ts) :
    ∃ x, d = .monitor x := by
  cases h <;> exact ⟨_, rfl⟩

/-- A declaration ends with its only semicolon, and no `END` stands in it. -/
theorem Declares.eq_snoc {b : Block} {d : Declaration} {ts : List Token} (h : b.Declares d ts) :
    ∃ us p, ts = us ++ [⟨.semicolon, p⟩] ∧ ∀ t ∈ us, ¬ t.Closes := by
  cases h with
  | device => exact ⟨[_, _, _], _, rfl, by simp [Token.Closes, Word.token]⟩
  | qualifiedDevice =>
      exact ⟨[_, _, _, _, _], _, rfl, by simp [Token.Closes, Word.token, Numeral.token]⟩
  | connection => exact ⟨[_, _, _, _, _], _, rfl, by simp [Token.Closes, Word.token]⟩
  | pinConnection => exact ⟨[_, _, _, _, _, _, _], _, rfl, by simp [Token.Closes, Word.token]⟩
  | monitor => exact ⟨[_], _, rfl, by simp [Token.Closes, Word.token]⟩
  | pinMonitor => exact ⟨[_, _, _], _, rfl, by simp [Token.Closes, Word.token]⟩

theorem Declares.mem_words {b : Block} {d : Declaration} {ts : List Token} (h : b.Declares d ts)
    {w : Word} (hw : w ∈ d.words) : w.token ∈ ts := by
  cases h <;> simp [Declaration.words] at hw <;> grind

/-- The block of declarations `ds` whose `END` stands at `last`. -/
inductive Lists (b : Block) (ds : List Declaration) (last : Position) : List Token → Prop
  | intro {p : Position} {ts : List Token} : Form.Many b.Declares ds ts →
      Lists b ds last (⟨.keyword b.keyword, p⟩ :: (ts ++ [⟨.keyword .endBlock, last⟩]))

theorem Lists.eq_map {β : Type} {b : Block} {f : β → Declaration}
    (hf : ∀ {d ts}, b.Declares d ts → ∃ x, d = f x) {ds : List Declaration} {last : Position}
    {ts : List Token} (h : b.Lists ds last ts) : ∃ xs : List β, ds = xs.map f := by
  obtain ⟨hds⟩ := h
  exact hds.eq_map hf

theorem Lists.mem_words {b : Block} {ds : List Declaration} {last : Position} {ts : List Token}
    (h : b.Lists ds last ts) {d : Declaration} (hd : d ∈ ds) {w : Word} (hw : w ∈ d.words) :
    w.token ∈ ts := by
  obtain ⟨hds⟩ := h
  obtain ⟨us, hdus, hsub⟩ := hds.mem hd
  exact List.mem_cons_of_mem _ (List.mem_append_left _ (hsub (hdus.mem_words hw)))

end Block

/-! ## Files -/

/-- What a file of good form says. -/
structure Sentence where
  devices : List DeviceDecl
  connections : List ConnectionDecl
  /-- Where the block of connections ends. -/
  connectionsEnd : Position
  monitors : List MonitorDecl

namespace Sentence

/-- The declarations of a file, in order. -/
def declarations (s : Sentence) : List Declaration :=
  s.devices.map .device ++ s.connections.map .connection ++ s.monitors.map .monitor

/-- The tokens of a file that says `s`. -/
inductive Says (s : Sentence) : List Token → Prop
  | intro {ds cs ms : List Token} {devicesEnd monitorEnd mainEnd : Position} :
      Block.devices.Lists (s.devices.map .device) devicesEnd ds →
      Block.connections.Lists (s.connections.map .connection) s.connectionsEnd cs →
      Block.monitor.Lists (s.monitors.map .monitor) monitorEnd ms →
      Says s (ds ++ cs ++ ms ++ [⟨.keyword .mainEnd, mainEnd⟩])

theorem Says.mem_words {s : Sentence} {ts : List Token} (h : s.Says ts) {d : Declaration}
    (hd : d ∈ s.declarations) {w : Word} (hw : w ∈ d.words) : w.token ∈ ts := by
  obtain ⟨hds, hcs, hms⟩ := h
  simp only [List.mem_append]
  rcases List.mem_append.mp hd with hd | hd
  · rcases List.mem_append.mp hd with hd | hd
    · exact .inl (.inl (.inl (hds.mem_words hd hw)))
    · exact .inl (.inl (.inr (hcs.mem_words hd hw)))
  · exact .inl (.inr (hms.mem_words hd hw))

end Sentence

namespace TokenStream

/-- The symbols of a stream begin with the tokens `ts`. -/
def BeginsWith (s : TokenStream) (ts : List Token) : Prop := ts.map Symbol.token <+: s.symbols

/-- Behind the tokens of a stream come no more tokens. -/
theorem beginsWith_iff {s : TokenStream} {ts : List Token} : s.BeginsWith ts ↔ ts <+: s.tokens := by
  unfold BeginsWith symbols
  generalize s.tokens = us
  induction ts generalizing us with
  | nil => simp
  | cons t ts ih =>
      cases us with
      | cons u us => simp [List.cons_prefix_cons, ih]
      | nil =>
          -- the first symbol behind the tokens is no token
          cases h : s.ending.openComment <;> simp [Ending.symbols, h, List.cons_prefix_cons]

end TokenStream

end LogicNet
