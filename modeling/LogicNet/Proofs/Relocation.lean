import LogicNet.Parse
import LogicNet.Proofs.Course

/-!
# Reading and building look at no place

The place of a token goes into diagnostics, and nowhere else. To say so, all places in a stream are
changed by some function, whatever it is, and then everything that reading and building come to is
the same with its places changed: the items that are found, the events, and the symbol at which
reading stops (`parse_of_moved`). The calls, the names and the builder have no places in
them, so they are the same.
-/

namespace LogicNet

open Text (Position)

variable (f : Position → Position)

/-! ## What has a place, with the place changed -/

def Token.moved (t : Token) : Token := ⟨t.lexeme, f t.pos⟩

def Symbol.moved : Symbol → Symbol
  | token t => token (t.moved f)
  | openComment p => openComment (f p)
  | eof p => eof (f p)

def Ending.moved (e : Ending) : Ending := ⟨e.openComment.map f, f e.stop⟩

def TokenStream.moved (s : TokenStream) : TokenStream :=
  ⟨s.tokens.map (Token.moved f), s.ending.moved f⟩

def Word.moved (w : Word) : Word := ⟨w.text, f w.pos⟩

def Numeral.moved (n : Numeral) : Numeral := ⟨n.value, f n.pos⟩

def DeviceDecl.moved (d : DeviceDecl) : DeviceDecl :=
  ⟨d.kind.moved f, d.qualifier.map (Numeral.moved f), d.name.moved f⟩

def ConnectionDecl.moved (d : ConnectionDecl) : ConnectionDecl :=
  ⟨d.outDevice.moved f, d.outPin.map (Word.moved f), d.inDevice.moved f, d.inPin.moved f⟩

def MonitorDecl.moved (d : MonitorDecl) : MonitorDecl :=
  ⟨d.device.moved f, d.pin.map (Word.moved f)⟩

def Declaration.moved : Declaration → Declaration
  | device d => device (d.moved f)
  | connection d => connection (d.moved f)
  | monitor d => monitor (d.moved f)

def Item.moved : Item → Item
  | opened b => opened b
  | declared d => declared (d.moved f)
  | closed b last => closed b (last.moved f)
  | fault error symbol => fault error (symbol.moved f)

def Outline.moved (o : Outline) : Outline :=
  ⟨o.items.map (Item.moved f), o.rest.map (Token.moved f)⟩

def Diagnostic.moved (d : Diagnostic) : Diagnostic := ⟨d.kind, d.anchor.moved f⟩

def Event.moved : Event → Event
  | called call refusal => called call refusal
  | checked complete => checked complete
  | reported d => reported (d.moved f)

@[simp] theorem Token.lexeme_moved (t : Token) : (t.moved f).lexeme = t.lexeme := rfl

@[simp] theorem Token.name?_moved (t : Token) : (t.moved f).name? = t.name? := rfl

theorem TokenStream.symbols_moved (s : TokenStream) :
    (s.moved f).symbols = s.symbols.map (Symbol.moved f) := by
  obtain ⟨tokens, ⟨_ | p, stop⟩⟩ := s <;>
    simp [symbols, moved, Ending.symbols, Ending.moved, Symbol.moved]

/-! ## Reading a declaration -/

namespace Reader

variable {α β : Type}

/-- A reader that comes to the same as another, behind tokens that stand elsewhere. -/
def Moves (r r' : Reader α) (m : α → α) : Prop :=
  ∀ ts, r' (ts.map (Token.moved f)) =
    match r ts with
    | .ok a rest => .ok (m a) (rest.map (Token.moved f))
    | .error error rest => .error error (rest.map (Token.moved f))

variable {f} {r r' : Reader α} {m : α → α}

theorem moves_pure (m : α → α) (a : α) : Moves f (pure a) (pure (m a)) m := fun _ => rfl

theorem Moves.bind (hr : Moves f r r' m) {g g' : α → Reader β} {m' : β → β}
    (hg : ∀ a, Moves f (g a) (g' (m a)) m') : Moves f (r >>= g) (r' >>= g') m' := by
  intro ts
  simp only [Bind.bind, EStateM.bind, hr ts]
  cases r ts with
  | ok a rest => exact hg a rest
  | error error rest => rfl

theorem Moves.map (hr : Moves f r r' m) (g g' : α → β) {m' : β → β}
    (hg : ∀ a, g' (m a) = m' (g a)) : Moves f (g <$> r) (g' <$> r') m' := by
  intro ts
  simp only [Functor.map, EStateM.map, hr ts]
  cases r ts with
  | ok a rest => exact congrArg (EStateM.Result.ok · _) (hg a)
  | error error rest => rfl

theorem moves_mark (lexeme : Lexeme) (error : SyntaxError) :
    Moves f (mark lexeme error) (mark lexeme error) id := by
  intro ts
  cases ts with
  | nil => rfl
  | cons t ts =>
      rw [List.map_cons, mark, mark, Token.lexeme_moved]
      split <;> rfl

theorem moves_word (error : SyntaxError) : Moves f (word error) (word error) (Word.moved f) := by
  intro ts
  cases ts with
  | nil => rfl
  | cons t ts =>
      obtain ⟨lexeme, pos⟩ := t
      cases lexeme <;> rfl

theorem moves_numeral (error : SyntaxError) :
    Moves f (numeral error) (numeral error) (Numeral.moved f) := by
  intro ts
  cases ts with
  | nil => rfl
  | cons t ts =>
      obtain ⟨lexeme, pos⟩ := t
      cases lexeme <;> rfl

theorem Moves.after? (hr : Moves f r r' m) (lexeme : Lexeme) :
    Moves f (Reader.after? lexeme r) (Reader.after? lexeme r') (Option.map m) := by
  intro ts
  cases ts with
  | nil => rfl
  | cons t ts =>
      rw [List.map_cons, Reader.after?, Reader.after?, Token.lexeme_moved]
      split
      · exact hr.map some some (fun _ => rfl) ts
      · rfl

end Reader

open Reader in
/-- **A declaration is read wherever it stands.** -/
theorem Block.moves_reader (b : Block) (first : Word) :
    Moves f (b.reader first) (b.reader (first.moved f)) (Declaration.moved f) := by
  cases b with
  | devices =>
      exact (((moves_numeral _).after? _).bind fun _ => (moves_mark _ _).bind fun _ =>
        (moves_word _).bind fun _ => (moves_mark _ _).bind fun _ =>
          moves_pure (DeviceDecl.moved f) _).map _ _ fun _ => rfl
  | connections =>
      exact (((moves_word _).after? _).bind fun _ => (moves_mark _ _).bind fun _ =>
        (moves_word _).bind fun _ => (moves_mark _ _).bind fun _ => (moves_word _).bind fun _ =>
          (moves_mark _ _).bind fun _ => moves_pure (ConnectionDecl.moved f) _).map _ _ fun _ => rfl
  | monitor =>
      exact (((moves_word _).after? _).bind fun _ => (moves_mark _ _).bind fun _ =>
        moves_pure (MonitorDecl.moved f) _).map _ _ fun _ => rfl

/-! ## Reading a file -/

namespace Ending

variable (e : Ending) (ts : List Token)

theorem current_moved : (e.moved f).current (ts.map (Token.moved f)) = (e.current ts).moved f := by
  cases ts <;> rfl

theorem arrival_moved :
    (e.moved f).arrival (ts.map (Token.moved f)) = (e.arrival ts).map (Item.moved f) := by
  obtain ⟨_ | p, stop⟩ := e <;> cases ts <;> rfl

end Ending

namespace Outline

variable (e : Ending) (entered : List Block) (ts : List Token)

@[simp] theorem items_moved (o : Outline) : (o.moved f).items = o.items.map (Item.moved f) := rfl

@[simp] theorem rest_moved (o : Outline) : (o.moved f).rest = o.rest.map (Token.moved f) := rfl

theorem moved_behind (o : Outline) (items : List Item) :
    (o.behind items).moved f = (o.moved f).behind (items.map (Item.moved f)) := by
  simp [behind, moved]

theorem extraSemicolons_moved :
    extraSemicolons (e.moved f) (ts.map (Token.moved f)) = (extraSemicolons e ts).moved f := by
  induction ts with
  | nil => rfl
  | cons t ts ih =>
      rw [List.map_cons, extraSemicolons, extraSemicolons, Token.lexeme_moved]
      split
      · rw [ih, moved_behind, List.map_cons, e.arrival_moved]
        rfl
      · rfl

theorem recoverInBlock_moved :
    recoverInBlock (e.moved f) (ts.map (Token.moved f)) = (recoverInBlock e ts).moved f := by
  induction ts with
  | nil => rfl
  | cons t ts ih =>
      rw [List.map_cons, recoverInBlock, recoverInBlock, Token.lexeme_moved]
      split
      · rfl
      · rw [extraSemicolons_moved, moved_behind, e.arrival_moved]
      · rw [ih, moved_behind, e.arrival_moved]

theorem recoverOutOfBlock_moved :
    recoverOutOfBlock (e.moved f) entered (ts.map (Token.moved f)) =
      (recoverOutOfBlock e entered ts).moved f := by
  induction ts with
  | nil => rfl
  | cons t ts ih =>
      rw [List.map_cons, recoverOutOfBlock, recoverOutOfBlock, Token.lexeme_moved]
      split
      · rfl
      · split
        · split
          · rw [ih, moved_behind, List.map_cons, e.arrival_moved]
            rfl
          · rfl
        · rw [ih, moved_behind, e.arrival_moved]
      · rw [ih, moved_behind, e.arrival_moved]

theorem report_moved (error : SyntaxError) :
    report (e.moved f) entered error (ts.map (Token.moved f)) =
      (report e entered error ts).moved f := by
  have hadvance : (e.moved f).advance (ts.map (Token.moved f)) = (e.advance ts).moved f := by
    cases ts with
    | nil => rfl
    | cons t ts =>
        simp only [List.map_cons, Ending.advance, e.arrival_moved]
        rfl
  have hpassed : (if error.plan.advance then (e.moved f).advance (ts.map (Token.moved f))
      else nothing (ts.map (Token.moved f))) =
        (if error.plan.advance then e.advance ts else nothing ts).moved f := by
    split
    · exact hadvance
    · rfl
  simp only [report, hpassed, moved_behind, rest_moved, items_moved, List.map_cons, Item.moved,
    e.current_moved]
  congr 1
  split
  · rfl
  · exact recoverInBlock_moved f e _
  · exact recoverOutOfBlock_moved f e entered _

theorem declaration_moved (b : Block) (first : Word) :
    declaration (e.moved f) entered b (first.moved f) (ts.map (Token.moved f)) =
      (declaration e entered b first ts).moved f := by
  rw [declaration, b.moves_reader f first ts, declaration]
  cases b.reader first ts with
  | ok d rest => simp [moved, e.arrival_moved, Item.moved]
  | error error rest => simp only [report_moved, e.arrival_moved, moved_behind]

theorem body_moved (b : Block) :
    body (e.moved f) entered b (ts.map (Token.moved f)) = (body e entered b ts).moved f := by
  induction ts using body_cases e entered b with
  | nil =>
      rw [List.map_nil, body_nil, body_nil]
      exact report_moved f e entered [] .noEnd
  | word w ts ih =>
      have hw : (w.token).moved f = (w.moved f).token := rfl
      rw [List.map_cons, hw, body_word, body_word, declaration_moved, moved_behind, items_moved,
        rest_moved, ih]
  | closed t ts ht =>
      rw [List.map_cons, body_end ht, body_end (t.lexeme_moved f ▸ ht), e.arrival_moved]
      rfl
  | keyword t ts k ht hk =>
      rw [List.map_cons, body_keyword ht hk, body_keyword (t.lexeme_moved f ▸ ht) hk]
      exact report_moved f e entered (t :: ts) .noEnd
  | semicolon t ts ht ih =>
      rw [List.map_cons, body_semicolon ht, body_semicolon (t.lexeme_moved f ▸ ht), ih,
        moved_behind, List.map_cons, e.arrival_moved]
      rfl
  | stray t ts ht ih =>
      have ht' : (t.moved f).Stray := ht
      rw [List.map_cons, body_stray ht, body_stray ht', ← List.map_cons, report_moved,
        moved_behind, items_moved, rest_moved, ih]

theorem seek_moved (b : Block) :
    seek (e.moved f) entered b (ts.map (Token.moved f)) = (seek e entered b ts).moved f := by
  have hhead : (ts.map (Token.moved f)).head?.map Token.lexeme = ts.head?.map Token.lexeme := by
    cases ts <;> rfl
  rw [seek, seek, hhead]
  split
  · rfl
  · exact report_moved f e entered ts _

theorem blocks_moved (bs : List Block) :
    blocks (e.moved f) entered bs (ts.map (Token.moved f)) =
      (blocks e entered bs ts).moved f := by
  induction bs generalizing entered ts with
  | nil =>
      have hhead : (ts.map (Token.moved f)).head?.map Token.lexeme = ts.head?.map Token.lexeme := by
        cases ts <;> rfl
      rw [blocks, blocks, hhead]
      split
      · rfl
      · exact report_moved f e entered ts _
  | cons b bs ih =>
      -- the block is entered in both texts or is missing in both
      have hseek := seek_moved f e entered ts b
      rcases seek_cases e entered b ts with ⟨t, rest, hrest, ht⟩ | hmissing
      · have hrest' : (seek (e.moved f) entered b (ts.map (Token.moved f))).rest =
            t.moved f :: rest.map (Token.moved f) := by
          rw [hseek, rest_moved, hrest, List.map_cons]
        rw [blocks_of_entered hrest ht, blocks_of_entered hrest' (t.lexeme_moved f ▸ ht),
          body_moved, rest_moved, ih, hseek, moved_behind, e.arrival_moved]
        simp [Item.moved]
      · have hmissing' : ∀ t ∈ (seek (e.moved f) entered b (ts.map (Token.moved f))).rest.head?,
            t.lexeme ≠ .keyword b.keyword := by
          rw [hseek, rest_moved, List.head?_map]
          intro t ht
          obtain ⟨u, hu, rfl⟩ := Option.map_eq_some_iff.mp ht
          exact hmissing u hu
        rw [blocks_of_missing hmissing, blocks_of_missing hmissing', hseek, rest_moved, ih,
          moved_behind, items_moved]

/-- **A file is read wherever its tokens stand.** -/
theorem ofStream_moved (s : TokenStream) : ofStream (s.moved f) = (ofStream s).moved f := by
  rw [ofStream, ofStream, TokenStream.moved, blocks_moved, Ending.arrival_moved, moved_behind]

end Outline

/-! ## Building -/

theorem DeviceDecl.anchor_moved (d : DeviceDecl) (e : DeviceError) :
    (d.moved f).anchor e = (d.anchor e).moved f := by
  obtain ⟨kind, qualifier, name⟩ := d
  cases e <;> cases qualifier <;> rfl

theorem ConnectionDecl.anchor_moved (d : ConnectionDecl) (e : ConnectionError) :
    (d.moved f).anchor e = (d.anchor e).moved f := by
  obtain ⟨outDevice, outPin, inDevice, inPin⟩ := d
  cases e <;> cases outPin <;> rfl

theorem MonitorDecl.anchor_moved (d : MonitorDecl) (e : MonitorError) :
    (d.moved f).anchor e = (d.anchor e).moved f := by
  cases e <;> rfl

namespace Progress

variable {β : Type} [NetworkBuilder β] (p : Progress β) (ids : String → NameId)

theorem declare_moved (d : Declaration) :
    p.declare ids (d.moved f) =
      ((p.declare ids d).1.map (Event.moved f), (p.declare ids d).2) := by
  cases d with
  | device d =>
      have hqualifier : ((d.moved f).qualifier.map fun n => (n.value : Int)) =
          d.qualifier.map fun n => (n.value : Int) := by
        simp [DeviceDecl.moved, Numeral.moved, Function.comp_def]
      simp only [declare, Declaration.moved, device, hqualifier, DeviceDecl.anchor_moved]
      dsimp only [DeviceDecl.moved, Word.moved]
      split <;> rfl
  | connection d =>
      have hpin : ((d.moved f).outPin.map fun w => ids w.text) =
          d.outPin.map fun w => ids w.text := by
        simp [ConnectionDecl.moved, Word.moved, Function.comp_def]
      simp only [declare, Declaration.moved, connection, hpin, ConnectionDecl.anchor_moved]
      by_cases hr : ids d.outDevice.text ∈ p.rejected ∨ ids d.inDevice.text ∈ p.rejected
      · simp only [if_pos hr]
        exact if_pos hr
      · simp only [if_neg hr]
        -- the condition is about names, so it is the same for the declaration that was moved
        refine (if_neg hr).trans ?_
        dsimp only [ConnectionDecl.moved, Word.moved]
        split <;> rfl
  | monitor d =>
      have hpin : ((d.moved f).pin.map fun w => ids w.text) = d.pin.map fun w => ids w.text := by
        simp [MonitorDecl.moved, Word.moved, Function.comp_def]
      simp only [declare, Declaration.moved, monitor, hpin, MonitorDecl.anchor_moved]
      by_cases hr : ids d.device.text ∈ p.rejected
      · simp only [if_pos hr]
        exact if_pos hr
      · simp only [if_neg hr]
        refine (if_neg hr).trans ?_
        dsimp only [MonitorDecl.moved, Word.moved]
        split <;> rfl

theorem step_moved (item : Item) :
    p.step ids (item.moved f) =
      ((p.step ids item).1.map (Event.moved f), (p.step ids item).2) := by
  cases item with
  | opened b => rfl
  | fault error symbol => rfl
  | declared d =>
      simp only [Item.moved, step, p.declare_moved]
      split <;> rfl
  | closed b last =>
      simp only [Item.moved, step, check]
      split
      · split <;> rfl
      · rfl

/-- **Items are dealt with wherever they stand.** -/
theorem steps_moved (items : List Item) :
    p.steps ids (items.map (Item.moved f)) =
      ((p.steps ids items).1.map (Event.moved f), (p.steps ids items).2) := by
  induction items generalizing p with
  | nil => rfl
  | cons item items ih => simp only [List.map_cons, steps, step_moved, ih, List.map_append]

end Progress

theorem TokenStream.namesBefore_moved (s : TokenStream) (rest : List Token) :
    (s.moved f).namesBefore (rest.map (Token.moved f)) = s.namesBefore rest := by
  simp only [namesBefore, moved, List.length_map, ← List.map_take, List.filterMap_map]
  rfl

/-- **A text is parsed wherever its tokens stand.** -/
theorem parse_of_moved {β : Type} [NetworkBuilder β] (names : NameTable) (builder : β)
    {text other : String} (h : TokenStream.ofText other = (TokenStream.ofText text).moved f) :
    let r := parse names builder text
    parse names builder other =
      ⟨r.names, r.builder, r.events.map (Event.moved f), r.stop.moved f⟩ := by
  simp only [parse, h, Outline.ofStream_moved, Outline.rest_moved, TokenStream.namesBefore_moved,
    Outline.items_moved, Progress.steps_moved]
  rw [TokenStream.moved, Ending.current_moved]

end LogicNet
