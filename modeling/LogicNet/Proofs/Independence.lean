import LogicNet.Proofs.Contents
import LogicNet.Proofs.Parser

/-!
# Reading does not depend on the network

The parser that reads a text once deals with each declaration before it looks at the next. It might
well let an answer of the builder decide how it goes on. It does not. Step by step it does what the
outline of the text says, which is made without a builder: `Parser.At` tells where in the stream it
stands, and `Parser.Follows` says of a stretch of its way that it stands behind the stretch, and has
dealt with what the outline found there and with nothing else.

Two things need care. A parser gives names the numbers that they have so far, while the outline is
dealt with when all names are entered; but a declaration is dealt with when its words are in the
table, and they keep their numbers (`Progress.steps_congr`). And a comment that is left open is met
by whoever takes the next symbol, in the middle of a declaration or not (`Ending.noted`).

So reading once and reading in two passes come to the same (`Parser.parsed_run`), and for two
builders the parser takes the same symbols, enters the same blocks and names, and finds the same
faults of form (`Parser.run_independent`).
-/

namespace LogicNet

open Text

namespace Progress

variable {β : Type} [NetworkBuilder β]

/-- Only the numbers of the words that are declared count. -/
theorem declare_congr {ids ids' : String → NameId} (p : Progress β) {d : Declaration}
    (h : ∀ w ∈ d.words, ids w.text = ids' w.text) : p.declare ids d = p.declare ids' d := by
  cases d with
  | device d =>
      have hkind : ids d.kind.text = ids' d.kind.text := h d.kind (by simp [Declaration.words])
      have hname : ids d.name.text = ids' d.name.text := h d.name (by simp [Declaration.words])
      simp only [declare, device, hkind, hname]
  | connection d =>
      have hout : ids d.outDevice.text = ids' d.outDevice.text :=
        h d.outDevice (by simp [Declaration.words])
      have hpin : (d.outPin.map fun w => ids w.text) = d.outPin.map fun w => ids' w.text :=
        Option.map_congr fun w hw => h w (by simp [Declaration.words, hw])
      have hin : ids d.inDevice.text = ids' d.inDevice.text :=
        h d.inDevice (by simp [Declaration.words])
      have hinPin : ids d.inPin.text = ids' d.inPin.text := h d.inPin (by simp [Declaration.words])
      simp only [declare, connection, hout, hpin, hin, hinPin]
  | monitor d =>
      have hdevice : ids d.device.text = ids' d.device.text :=
        h d.device (by simp [Declaration.words])
      have hpin : (d.pin.map fun w => ids w.text) = d.pin.map fun w => ids' w.text :=
        Option.map_congr fun w hw => h w (by simp [Declaration.words, hw])
      simp only [declare, monitor, hdevice, hpin]

theorem steps_congr {ids ids' : String → NameId} {items : List Item} (p : Progress β)
    (h : ∀ d, .declared d ∈ items → ∀ w ∈ d.words, ids w.text = ids' w.text) :
    p.steps ids items = p.steps ids' items := by
  induction items generalizing p with
  | nil => rfl
  | cons item items ih =>
      have hstep : p.step ids item = p.step ids' item := by
        cases item with
        | declared d => simp only [step, p.declare_congr (h d (List.mem_cons_self ..))]
        | opened b | closed b last | fault error symbol => rfl
      simp only [steps, hstep, ih _ fun d hd => h d (List.mem_cons_of_mem item hd)]

end Progress

namespace TokenStream

/-- The table of names once the tokens before `ts` were taken. -/
def table (s : TokenStream) (names : NameTable) (ts : List Token) : NameTable :=
  (names.internAll Keyword.spellings).internAll (s.namesBefore ts)

variable {s : TokenStream}

theorem namesBefore_eq {pre ts : List Token} (h : s.tokens = pre ++ ts) :
    s.namesBefore ts = pre.filterMap Token.name? := by
  simp [namesBefore, h]

theorem table_cons {t : Token} {ts : List Token} (h : t :: ts <:+ s.tokens) (names : NameTable) :
    s.table names ts = t.name?.elim (s.table names (t :: ts)) (s.table names (t :: ts)).intern := by
  obtain ⟨pre, hpre⟩ := h
  have hmore : s.tokens = (pre ++ [t]) ++ ts := by simp [hpre]
  simp only [table, namesBefore_eq hpre.symm, namesBefore_eq hmore, NameTable.internAll]
  cases ht : t.name? <;> simp [ht]

end TokenStream

namespace Ending

/-- What a reader notes on its way from `ts` to `rest`. -/
def noted (e : Ending) (ts rest : List Token) : List Item := if ts = [] then [] else e.arrival rest

variable {e : Ending} {ts mid rest : List Token}

theorem noted_cons (t : Token) : e.noted (t :: ts) rest = e.arrival rest := if_neg (by simp)

theorem noted_self (e : Ending) (ts : List Token) : e.noted ts ts = [] := by
  cases ts <;> rfl

/-- The comment that is left open is noted once. -/
theorem noted_append (hmid : mid <:+ ts) (hrest : rest <:+ mid) :
    e.noted ts mid ++ e.noted mid rest = e.noted ts rest := by
  cases ts with
  | nil =>
      obtain rfl := List.suffix_nil.mp hmid
      rfl
  | cons t ts =>
      rw [noted_cons, noted_cons]
      cases mid with
      | nil =>
          obtain rfl := List.suffix_nil.mp hrest
          exact List.append_nil _
      | cons u mid => rw [noted_cons]; rfl

end Ending

namespace Parser

variable {β : Type} {names : NameTable} {s : TokenStream} {p q : Parser β} {ts rest : List Token}
  {t : Token}

/-! ## Where a parser stands -/

/-- The tokens from `ts` on are not taken yet. -/
structure Before (names : NameTable) (s : TokenStream) (ts : List Token) (p : Parser β) : Prop where
  suffix : ts <:+ s.tokens
  reads : p.scanner.Reads ⟨ts, s.ending⟩
  taken : p.taken ++ s.ending.symbolsFrom ts = s.symbols
  names : p.scanner.names = s.table names ts

/-- The parser looks at the first token of `ts`, or at the end of the text. -/
inductive At (names : NameTable) (s : TokenStream) : List Token → Parser β → Prop
  | token {t : Token} {ts : List Token} {p : Parser β} (hsuffix : t :: ts <:+ s.tokens)
      (hcurrent : p.current = .token t) (hbefore : p.Before names s ts) : At names s (t :: ts) p
  | eof {p : Parser β} (hcurrent : p.current = .eof s.ending.stop) (htaken : p.taken = s.symbols)
      (hnames : p.scanner.names = s.table names []) : At names s [] p

theorem At.current_eq (h : At names s ts p) : p.current = s.ending.current ts := by
  cases h <;> assumption

theorem At.suffix (h : At names s ts p) : ts <:+ s.tokens := by
  cases h with
  | token hsuffix => exact hsuffix
  | eof => exact List.nil_suffix

theorem At.eq_cons (h : At names s ts p) (ht : p.current = .token t) :
    ∃ us, ts = t :: us ∧ p.Before names s us := by
  cases h with
  | @token u us _ _ hcurrent hbefore =>
      obtain rfl := Symbol.token.inj (hcurrent.symm.trans ht)
      exact ⟨us, rfl, hbefore⟩
  | eof hcurrent => cases hcurrent.symm.trans ht

theorem At.eq_nil (h : At names s ts p) {pos : Position} (hpos : p.current = .eof pos) :
    ts = [] := by
  cases h with
  | token _ hcurrent => cases hcurrent.symm.trans hpos
  | eof => rfl

/-- An open comment is never looked at for long. -/
theorem At.ne_openComment (h : At names s ts p) (pos : Position) :
    p.current ≠ .openComment pos := by
  rw [h.current_eq]
  cases ts <;> simp [Ending.current]

theorem At.before (h : At names s (t :: ts) p) : p.Before names s ts := by
  cases h; assumption

theorem At.sees_eq (h : At names s ts p) (lexeme : Lexeme) :
    p.sees lexeme = true ↔ ts.head?.map Token.lexeme = some lexeme := by
  rw [sees, h.current_eq]
  cases ts <;> simp [Ending.current]

/-- What is known of a place does not depend on what was dealt with so far. -/
theorem Before.congr (h : p.Before names s ts) (hscanner : q.scanner = p.scanner)
    (htaken : q.taken = p.taken) : q.Before names s ts :=
  ⟨h.suffix, hscanner ▸ h.reads, htaken ▸ h.taken, hscanner ▸ h.names⟩

theorem At.congr (h : At names s ts p) (hcurrent : q.current = p.current)
    (hscanner : q.scanner = p.scanner) (htaken : q.taken = p.taken) : At names s ts q := by
  cases h with
  | token hsuffix hp hbefore =>
      exact .token hsuffix (hcurrent.trans hp) (hbefore.congr hscanner htaken)
  | eof hp hall hnames => exact .eof (hcurrent.trans hp) (htaken.trans hall) (hscanner ▸ hnames)

/-- The names in the tokens before are in the table. -/
theorem At.mem_names (h : At names s ts p) (pre : List Token) (hpre : s.tokens = pre ++ ts)
    {w : Word} (hw : w.token ∈ pre) : w.text ∈ p.scanner.names.names := by
  have hmem : w.text ∈ pre.filterMap Token.name? := List.mem_filterMap.mpr ⟨_, hw, rfl⟩
  have hmore : ∀ (more : List Token) {us : List Token}, s.tokens = pre ++ more ++ us →
      w.text ∈ (s.table names us).names := by
    intro more us hus
    rw [TokenStream.table, NameTable.mem_names_internAll, TokenStream.namesBefore_eq hus,
      List.filterMap_append]
    exact .inr (List.mem_append_left _ hmem)
  cases h with
  | @token t ts _ _ _ hbefore =>
      rw [hbefore.names]
      exact hmore [t] (by simp [hpre])
  | eof _ _ hnames =>
      rw [hnames]
      exact hmore [] (by simpa using hpre)

theorem names_take (p : Parser β) :
    p.take.scanner.names = p.scanner.names.internAll p.take.current.name?.toList := by
  simp only [take, Scanner.next]
  cases (Scanner.scan none p.scanner.pos p.scanner.rest).1.name? <;> rfl

theorem Before.take_token (h : p.Before names s (t :: ts)) : At names s (t :: ts) p.take := by
  obtain ⟨hcurrent, hreads⟩ := h.reads.next
  have hnames := p.names_take
  refine .token h.suffix hcurrent ⟨(List.suffix_cons t ts).trans h.suffix, hreads, ?_, ?_⟩
  · rw [← h.taken, take, hcurrent, List.append_assoc]
    rfl
  · rw [hnames, h.names, TokenStream.table_cons h.suffix]
    simp only [take, hcurrent, TokenStream.next, Symbol.name?]
    cases t.name? <;> rfl

/-- Behind the last symbol but the end of the text, the end is taken. -/
theorem at_take_eof (hreads : p.scanner.Reads ⟨[], none, s.ending.stop⟩)
    (htaken : p.taken ++ [.eof s.ending.stop] = s.symbols)
    (hnames : p.scanner.names = s.table names []) : At names s [] p.take := by
  obtain ⟨hcurrent, -⟩ := hreads.next
  have htable := p.names_take
  refine .eof hcurrent ?_ ?_
  · rw [← htaken, take, hcurrent]
    rfl
  · rw [htable, hnames]
    simp only [take, hcurrent, TokenStream.next, Symbol.name?]
    rfl

/-- Two parsers that stand at the same place have taken the same symbols. -/
theorem At.taken_eq {γ : Type} {p : Parser β} {q : Parser γ} (hp : At names s ts p)
    (hq : At names s ts q) : p.taken = q.taken := by
  cases hp with
  | token _ _ hp =>
      exact List.append_cancel_right (hp.taken.trans hq.before.taken.symm)
  | eof _ hp =>
      cases hq with
      | eof _ hq => exact hp.trans hq.symm

theorem before_start (names : NameTable) (builder : β) (text : String) :
    (start names builder text).Before names (.ofText text) (TokenStream.ofText text).tokens where
  suffix := List.suffix_refl _
  reads := Scanner.reads_start names text
  taken := rfl
  names := by
    rw [TokenStream.table, TokenStream.namesBefore_eq (List.nil_append _).symm]
    rfl

/-! ## What a parser does on its way -/

section Follows

variable [NetworkBuilder β]

/--
A parser does what an outline says, and stands where the outline ends. The blocks that it has
entered then are `entered`.
-/
structure Follows (names : NameTable) (s : TokenStream) (p : Parser β) (o : Outline)
    (entered : List Block) (q : Parser β) : Prop where
  stands : At names s o.rest q
  entered : q.entered = entered
  grows : ∃ more, q.scanner.names = p.scanner.names.internAll more
  words : ∀ d, .declared d ∈ o.items → ∀ w ∈ d.words, w.text ∈ q.scanner.names.names
  events : q.events = p.events ++ (p.progress.steps q.scanner.names.idFor o.items).1
  progress : q.progress = (p.progress.steps q.scanner.names.idFor o.items).2

variable {entered : List Block} {o o' : Outline}

theorem Follows.refl (h : At names s ts p) : Follows names s p (.nothing ts) p.entered p where
  stands := h
  entered := rfl
  grows := ⟨[], rfl⟩
  words := fun _ hd => absurd hd List.not_mem_nil
  events := (List.append_nil _).symm
  progress := rfl

theorem Follows.trans {entered' : List Block} {r : Parser β} (h : Follows names s p o entered q)
    (h' : Follows names s q o' entered' r) :
    Follows names s p (o'.behind o.items) entered' r := by
  obtain ⟨more, hmore⟩ := h.grows
  obtain ⟨more', hmore'⟩ := h'.grows
  -- the names that were entered by then kept their numbers
  have hwords : ∀ d, .declared d ∈ o.items → ∀ w ∈ d.words, w.text ∈ r.scanner.names.names := by
    intro d hd w hw
    rw [hmore']
    exact NameTable.mem_names_internAll.mpr (.inl (h.words d hd w hw))
  have hsteps : p.progress.steps r.scanner.names.idFor o.items =
      p.progress.steps q.scanner.names.idFor o.items := by
    refine p.progress.steps_congr fun d hd w hw => ?_
    rw [hmore', NameTable.idFor_internAll_of_mem (h.words d hd w hw)]
  refine ⟨h'.stands, h'.entered, ⟨more ++ more', ?_⟩, ?_, ?_, ?_⟩
  · rw [hmore', hmore]
    simp only [NameTable.internAll, List.foldl_append]
  · intro d hd w hw
    rcases List.mem_append.mp hd with hd | hd
    · exact hwords d hd w hw
    · exact h'.words d hd w hw
  · rw [Outline.items_behind, Progress.steps_append, hsteps, h'.events, h.progress, h.events,
      List.append_assoc]
  · rw [Outline.items_behind, Progress.steps_append, hsteps, h'.progress, h.progress]

/-- What was found is dealt with at once. -/
theorem follows_act (h : At names s ts p) (item : Item)
    (hwords : ∀ d, item = .declared d → ∀ w ∈ d.words, w.text ∈ p.scanner.names.names) :
    Follows names s p ⟨[item], ts⟩ p.entered (p.act item) where
  stands := h.congr rfl rfl rfl
  entered := rfl
  grows := ⟨[], rfl⟩
  words := fun d hd => hwords d (List.mem_singleton.mp hd).symm
  events := by simp [act, Progress.steps]
  progress := by simp [act, Progress.steps]

theorem follows_report (h : At names s ts p) (error : SyntaxError) :
    Follows names s p ⟨[.fault error (s.ending.current ts)], ts⟩ p.entered (p.report error) := by
  rw [← h.current_eq]
  exact follows_act h _ fun d hd => absurd hd (by simp)

/-- A parser that takes a symbol it can look at has nothing to deal with. -/
theorem follows_take (h : At names s ts p.take) :
    Follows names s p (.nothing ts) p.entered p.advance := by
  have hadvance : p.advance = p.take := by
    rw [advance, h.current_eq]
    cases ts <;> rfl
  rw [hadvance]
  exact ⟨h, rfl, ⟨_, p.names_take⟩, fun _ hd => absurd hd List.not_mem_nil,
    (List.append_nil _).symm, rfl⟩

/-- The comment that is left open is reported where it starts, and passed over. -/
theorem Before.follows_advance_openComment (h : p.Before names s []) {pos : Position}
    (hopen : s.ending.openComment = some pos) :
    Follows names s p ⟨s.ending.arrival [], []⟩ p.entered p.advance := by
  obtain ⟨hcurrent, hreads⟩ := h.reads.next
  simp only [TokenStream.next, hopen] at hcurrent hreads
  have htake : p.take.current = .openComment pos := hcurrent
  have hadvance : p.advance = (p.take.report .unterminatedComment).take := by
    rw [advance, htake]
  have hnames : p.scanner.next.2.names = p.scanner.names := by
    have htable := p.names_take
    rwa [htake] at htable
  have htaken : (p.take.report .unterminatedComment).taken ++ [.eof s.ending.stop] =
      s.symbols := by
    rw [← h.taken]
    simp [report, act, take, hcurrent, Ending.symbolsFrom, Ending.symbols, hopen]
  have hat : At names s [] (p.take.report .unterminatedComment).take :=
    at_take_eof hreads htaken (hnames.trans h.names)
  have hkept : (p.take.report .unterminatedComment).take.scanner.names = p.scanner.names := by
    cases hat with
    | eof _ _ hat => rw [hat, h.names]
  have hitems : s.ending.arrival [] = [.fault .unterminatedComment (.openComment pos)] := by
    simp [Ending.arrival, hopen]
  rw [hadvance]
  refine ⟨hat, rfl, ⟨[], hkept⟩, by simp [hitems], ?_, ?_⟩
  · rw [hkept, hitems]
    simp [take, report, act, hcurrent, hnames, Progress.steps]
  · rw [hkept, hitems]
    simp [take, report, act, hcurrent, hnames, Progress.steps]

/-- **One symbol further** stands the next token, or the end of the text. -/
theorem Before.follows_advance (h : p.Before names s ts) :
    Follows names s p ⟨s.ending.arrival ts, ts⟩ p.entered p.advance := by
  cases ts with
  | cons t ts => exact follows_take h.take_token
  | nil =>
      cases hopen : s.ending.openComment with
      | some pos => exact h.follows_advance_openComment hopen
      | none =>
          have hending : s.ending = ⟨none, s.ending.stop⟩ := by rw [← hopen]
          have hnothing : (⟨s.ending.arrival [], []⟩ : Outline) = .nothing [] := by
            simp [Ending.arrival, hopen, Outline.nothing]
          rw [hnothing]
          refine follows_take (at_take_eof (hending ▸ h.reads) ?_ h.names)
          rw [← h.taken]
          simp [Ending.symbolsFrom, Ending.symbols, hopen]

theorem follows_enter (h : At names s ts p) (b : Block) :
    Follows names s p ⟨[.opened b], ts⟩ (b :: p.entered) (p.enter b) where
  stands := h.congr rfl rfl rfl
  entered := rfl
  grows := ⟨[], rfl⟩
  words := fun d hd => absurd (List.mem_singleton.mp hd) (by simp)
  events := (List.append_nil _).symm
  progress := rfl

/-- A fault is reported, and its symbol passed over. -/
theorem Before.follows_report_advance (h : p.Before names s ts) (hat : At names s (t :: ts) p)
    (error : SyntaxError) :
    Follows names s p ⟨.fault error (.token t) :: s.ending.arrival ts, ts⟩ p.entered
      (p.report error).advance := by
  have hreported : (p.report error).Before names s ts := h.congr rfl rfl
  exact (follows_report hat error).trans hreported.follows_advance

/-! ## Finding the way after a fault -/

theorem follows_extraSemicolons (h : At names s ts p) :
    Follows names s p (Outline.extraSemicolons s.ending ts) p.entered p.extraSemicolons := by
  fun_induction extraSemicolons p generalizing ts with
  | case1 p t hcurrent ht ih =>
      obtain ⟨us, rfl, hbefore⟩ := h.eq_cons hcurrent
      have hpassed := hbefore.follows_report_advance h .extraSemicolon
      rw [Outline.extraSemicolons, ht, ← hpassed.entered]
      exact hpassed.trans (ih hpassed.stands)
  | case2 p t hcurrent ht =>
      obtain ⟨us, rfl, -⟩ := h.eq_cons hcurrent
      rw [Outline.extraSemicolons]
      split
      · next hsemicolon => exact absurd hsemicolon ht
      · exact .refl h
  | case3 p pos hcurrent => exact absurd hcurrent (h.ne_openComment pos)
  | case4 p pos hcurrent =>
      obtain rfl := h.eq_nil hcurrent
      exact .refl h

theorem follows_recoverInBlock (h : At names s ts p) :
    Follows names s p (Outline.recoverInBlock s.ending ts) p.entered p.recoverInBlock := by
  fun_induction recoverInBlock p generalizing ts with
  | case1 p t hcurrent ht =>
      obtain ⟨us, rfl, -⟩ := h.eq_cons hcurrent
      rw [Outline.recoverInBlock, ht]
      exact .refl h
  | case2 p t hcurrent ht =>
      obtain ⟨us, rfl, hbefore⟩ := h.eq_cons hcurrent
      have hpassed := hbefore.follows_advance
      rw [Outline.recoverInBlock, ht, ← hpassed.entered]
      exact hpassed.trans (follows_extraSemicolons hpassed.stands)
  | case3 p t hcurrent hend hsemicolon ih =>
      obtain ⟨us, rfl, hbefore⟩ := h.eq_cons hcurrent
      have hpassed := hbefore.follows_advance
      rw [Outline.recoverInBlock, ← hpassed.entered]
      split
      · next ht => exact absurd ht hend
      · next ht => exact absurd ht hsemicolon
      · exact hpassed.trans (ih hpassed.stands)
  | case4 p pos hcurrent => exact absurd hcurrent (h.ne_openComment pos)
  | case5 p pos hcurrent =>
      obtain rfl := h.eq_nil hcurrent
      exact .refl h

theorem follows_recoverOutOfBlock (h : At names s ts p) (hentered : p.entered = entered) :
    Follows names s p (Outline.recoverOutOfBlock s.ending entered ts) entered
      p.recoverOutOfBlock := by
  fun_induction recoverOutOfBlock p generalizing ts with
  | case1 p t hcurrent ht =>
      obtain ⟨us, rfl, -⟩ := h.eq_cons hcurrent
      rw [Outline.recoverOutOfBlock, ht, ← hentered]
      exact .refl h
  | case2 p t hcurrent k hk ht b hb hmem ih =>
      obtain ⟨us, rfl, hbefore⟩ := h.eq_cons hcurrent
      have hpassed := hbefore.follows_report_advance h b.duplicateError
      have hrest := hpassed.trans (ih hpassed.stands (hpassed.entered.trans hentered))
      rw [Outline.recoverOutOfBlock, ht]
      simp only [hb, ← hentered, hmem, if_true] at hrest ⊢
      exact hrest
  | case3 p t hcurrent k hk ht b hb hmem =>
      obtain ⟨us, rfl, -⟩ := h.eq_cons hcurrent
      rw [Outline.recoverOutOfBlock, ht]
      simp only [hb, ← hentered, hmem, if_false]
      exact .refl h
  | case4 p t hcurrent k hk ht hb ih =>
      obtain ⟨us, rfl, hbefore⟩ := h.eq_cons hcurrent
      have hpassed := hbefore.follows_advance
      have hrest := hpassed.trans (ih hpassed.stands (hpassed.entered.trans hentered))
      rw [Outline.recoverOutOfBlock, ht]
      simp only [hb]
      exact hrest
  | case5 p t hcurrent hmain hother ih =>
      obtain ⟨us, rfl, hbefore⟩ := h.eq_cons hcurrent
      have hpassed := hbefore.follows_advance
      have hrest := hpassed.trans (ih hpassed.stands (hpassed.entered.trans hentered))
      rw [Outline.recoverOutOfBlock]
      split
      · next ht => exact absurd ht hmain
      · next k _ ht => exact absurd ht (hother k)
      · exact hrest
  | case6 p pos hcurrent => exact absurd hcurrent (h.ne_openComment pos)
  | case7 p pos hcurrent =>
      obtain rfl := h.eq_nil hcurrent
      exact hentered ▸ .refl h

/-- **An error of form is reported, and the way is found again**, as the outline says. -/
theorem follows_syntaxError (h : At names s ts p) (hentered : p.entered = entered)
    {error : SyntaxError} (hadvance : error.plan.advance = false) :
    Follows names s p (Outline.report s.ending entered error ts) entered (p.syntaxError error) := by
  have hreport := follows_report h error
  simp only [Outline.report, syntaxError, hadvance, Bool.false_eq_true, if_false]
  cases error.plan.recovery with
  | stay =>
      rw [← hentered]
      exact hreport
  | inBlock =>
      rw [← hentered]
      exact hreport.trans (follows_recoverInBlock hreport.stands)
  | outOfBlock =>
      exact hreport.trans (follows_recoverOutOfBlock hreport.stands hentered)

end Follows

end Parser

/-! ## Declarations -/

namespace Attempt

open LogicNet.Parser (At Follows)

variable {α β γ : Type} [NetworkBuilder β] {names : NameTable} {s : TokenStream} {p : Parser β}
  {ts : List Token}

/--
What comes of an attempt and what comes of a reader agree. Both get as far, and where the reader
stops at an error the attempt reports that error and goes on.
-/
inductive Agrees (names : NameTable) (s : TokenStream) (p : Parser β) (ts : List Token) :
    EStateM.Result Unit (Parser β) α → EStateM.Result SyntaxError (List Token) α → Prop
  | ok {x : α} {rest : List Token} {q : Parser β} (hrest : rest <:+ ts)
      (hfollows : Follows names s p ⟨s.ending.noted ts rest, rest⟩ p.entered q) :
      Agrees names s p ts (.ok x q) (.ok x rest)
  | error {error : SyntaxError} {rest : List Token} {q : Parser β} (hrest : rest <:+ ts)
      (hfollows : Follows names s p ⟨s.ending.noted ts rest, rest⟩ p.entered q) :
      Agrees names s p ts (.error () (q.syntaxError error)) (.error error rest)

/-- An attempt at what a reader reads. -/
def Matches (names : NameTable) (s : TokenStream) (a : Attempt β α) (r : Reader α) : Prop :=
  ∀ ts p, At names s ts p → Agrees names s p ts (a p) (r ts)

theorem agrees_fail (h : At names s ts p) (error : SyntaxError) :
    Agrees names s p ts (fail error p : EStateM.Result Unit (Parser β) α) (.error error ts) := by
  refine .error (List.suffix_refl ts) ?_
  rw [Ending.noted_self]
  exact .refl h

theorem agrees_none (h : At names s ts p) (x : α) : Agrees names s p ts (.ok x p) (.ok x ts) := by
  refine .ok (List.suffix_refl ts) ?_
  rw [Ending.noted_self]
  exact .refl h

theorem agrees_advance {t : Token} (h : At names s (t :: ts) p) (x : α) :
    Agrees names s p (t :: ts) (.ok x p.advance) (.ok x ts) := by
  refine .ok (List.suffix_cons t ts) ?_
  rw [Ending.noted_cons]
  exact h.before.follows_advance

/-- What agrees behind a stretch agrees from its start on. -/
theorem Agrees.behind {mid : List Token} {q : Parser β} {x : EStateM.Result Unit (Parser β) α}
    {y : EStateM.Result SyntaxError (List Token) α} (h : Agrees names s q mid x y)
    (hmid : mid <:+ ts) (hfollows : Follows names s p ⟨s.ending.noted ts mid, mid⟩ p.entered q) :
    Agrees names s p ts x y := by
  cases h with
  | ok hrest hmore =>
      refine .ok (hrest.trans hmid) ?_
      rw [← Ending.noted_append hmid hrest, ← hfollows.entered]
      exact hfollows.trans hmore
  | error hrest hmore =>
      refine .error (hrest.trans hmid) ?_
      rw [← Ending.noted_append hmid hrest, ← hfollows.entered]
      exact hfollows.trans hmore

theorem matches_pure (x : α) : Matches names s (pure x : Attempt β α) (pure x) :=
  fun _ _ h => agrees_none h x

theorem Matches.bind {a : Attempt β α} {r : Reader α} {f : α → Attempt β γ} {g : α → Reader γ}
    (ha : Matches names s a r) (hf : ∀ x, Matches names s (f x) (g x)) :
    Matches names s (a >>= f) (r >>= g) := by
  intro ts p h
  have hrun := ha ts p h
  simp only [Bind.bind, EStateM.bind]
  generalize a p = x, r ts = y at hrun ⊢
  cases hrun with
  | ok hrest hfollows => exact (hf _ _ _ hfollows.stands).behind hrest hfollows
  | error hrest hfollows => exact .error hrest hfollows

theorem Matches.map {a : Attempt β α} {r : Reader α} (ha : Matches names s a r) (f : α → γ) :
    Matches names s (f <$> a) (f <$> r) := by
  intro ts p h
  have hrun := ha ts p h
  simp only [Functor.map, EStateM.map]
  generalize a p = x, r ts = y at hrun ⊢
  cases hrun with
  | ok hrest hfollows => exact .ok hrest hfollows
  | error hrest hfollows => exact .error hrest hfollows

theorem matches_mark (lexeme : Lexeme) (error : SyntaxError) :
    Matches names s (mark lexeme error : Attempt β Unit) (Reader.mark lexeme error) := by
  intro ts p h
  have hsees := h.sees_eq lexeme
  rw [mark]
  cases ts with
  | nil =>
      rw [if_neg (by simp [hsees])]
      exact agrees_fail h error
  | cons t ts =>
      rw [Reader.mark]
      by_cases ht : t.lexeme = lexeme
      · rw [if_pos ht, if_pos (by simp [hsees, ht])]
        exact agrees_advance h ()
      · rw [if_neg ht, if_neg (by simp [hsees, ht])]
        exact agrees_fail h error

theorem matches_word (error : SyntaxError) :
    Matches names s (word error : Attempt β Word) (Reader.word error) := by
  intro ts p h
  have hcurrent := h.current_eq
  rw [word]
  cases ts with
  | nil =>
      rw [hcurrent]
      exact agrees_fail h error
  | cons t ts =>
      obtain ⟨lexeme, pos⟩ := t
      rw [hcurrent]
      cases lexeme with
      | name text => exact agrees_advance h _
      | comma | semicolon | equals | dash | dot | keyword | number => exact agrees_fail h error

theorem matches_numeral (error : SyntaxError) :
    Matches names s (numeral error : Attempt β Numeral) (Reader.numeral error) := by
  intro ts p h
  have hcurrent := h.current_eq
  rw [numeral]
  cases ts with
  | nil =>
      rw [hcurrent]
      exact agrees_fail h error
  | cons t ts =>
      obtain ⟨lexeme, pos⟩ := t
      rw [hcurrent]
      cases lexeme with
      | number value => exact agrees_advance h _
      | comma | semicolon | equals | dash | dot | keyword | name => exact agrees_fail h error

theorem Matches.after? {a : Attempt β α} {r : Reader α} (ha : Matches names s a r)
    (lexeme : Lexeme) : Matches names s (Attempt.after? lexeme a) (Reader.after? lexeme r) := by
  intro ts p h
  have hsees := h.sees_eq lexeme
  rw [Attempt.after?]
  cases ts with
  | nil =>
      rw [if_neg (by simp [hsees])]
      exact agrees_none h none
  | cons t ts =>
      rw [Reader.after?]
      by_cases ht : t.lexeme = lexeme
      · have hfollows := h.before.follows_advance
        rw [if_pos ht, if_pos (by simp [hsees, ht])]
        refine ((ha.map some) _ _ hfollows.stands).behind (List.suffix_cons t ts) ?_
        rw [Ending.noted_cons]
        exact hfollows
      · rw [if_neg ht, if_neg (by simp [hsees, ht])]
        exact agrees_none h none

end Attempt

/-- **A declaration is attempted as it is read.** -/
theorem Block.matches_attempt {β : Type} [NetworkBuilder β] {names : NameTable} {s : TokenStream}
    (b : Block) (first : Word) :
    Attempt.Matches names s (b.attempt first : Attempt β Declaration) (b.reader first) := by
  open Attempt in
  cases b with
  | devices =>
      exact (((matches_numeral _).after? _).bind fun _ => (matches_mark _ _).bind fun _ =>
        (matches_word _).bind fun _ => (matches_mark _ _).bind fun _ => matches_pure _).map _
  | connections =>
      exact (((matches_word _).after? _).bind fun _ => (matches_mark _ _).bind fun _ =>
        (matches_word _).bind fun _ => (matches_mark _ _).bind fun _ =>
          (matches_word _).bind fun _ => (matches_mark _ _).bind fun _ => matches_pure _).map _
  | monitor =>
      exact (((matches_word _).after? _).bind fun _ => (matches_mark _ _).bind fun _ =>
        matches_pure _).map _

/-! ## Blocks -/

namespace Parser

variable {β : Type} [NetworkBuilder β] {names : NameTable} {s : TokenStream} {p q : Parser β}
  {ts rest : List Token} {t : Token} {entered : List Block}

theorem follows_declaration (b : Block) (w : Word) (h : At names s (w.token :: ts) p)
    (hentered : p.entered = entered) :
    Follows names s p (Outline.declaration s.ending entered b w ts) entered
      (p.declaration b w) := by
  have hpassed := h.before.follows_advance
  have hread : ∀ {rest q}, rest <:+ ts →
      Follows names s p.advance ⟨s.ending.noted ts rest, rest⟩ p.advance.entered q →
      Follows names s p ⟨s.ending.arrival rest, rest⟩ entered q := by
    intro rest q hrest hfollows
    have hnoted : s.ending.arrival ts ++ s.ending.noted ts rest = s.ending.arrival rest := by
      have happend := s.ending.noted_append (List.suffix_cons w.token ts) hrest
      rwa [Ending.noted_cons, Ending.noted_cons] at happend
    rw [← hnoted, ← hentered, ← hpassed.entered]
    exact hpassed.trans hfollows
  have hrun := b.matches_attempt w _ _ hpassed.stands
  rw [declaration]
  generalize hx : b.attempt w p.advance = x, hy : b.reader w ts = y at hrun
  cases hrun with
  | @ok d rest q hrest hfollows =>
      have hq := hread hrest hfollows
      -- the words of the declaration were passed, so they are in the table
      have hwords : ∀ v ∈ d.words, v.text ∈ q.scanner.names.names := by
        intro v hv
        obtain ⟨us, hdeclares, hus⟩ := (b.reads_reader w).taken hy
        obtain ⟨pre, hpre⟩ := h.suffix
        refine hq.stands.mem_names (pre ++ w.token :: us) ?_
          (List.mem_append_right _ (hdeclares.mem_words hv))
        rw [← hpre, hus, List.append_assoc]
        rfl
      rw [Outline.declaration, hy, ← hq.entered]
      exact hq.trans (follows_act hq.stands _ fun d' hd => by cases hd; exact hwords)
  | @error error rest q hrest hfollows =>
      have hq := hread hrest hfollows
      have herror : error.InDeclaration := ((b.reads_reader w).stops hy).1
      rw [Outline.declaration, hy]
      exact hq.trans (follows_syntaxError hq.stands hq.entered herror.1)

theorem follows_body (b : Block) (h : At names s ts p) (hentered : p.entered = entered) :
    Follows names s p (Outline.body s.ending entered b ts) entered (body b p) := by
  fun_induction body b p generalizing ts with
  | case1 p t hcurrent text ht ih =>
      obtain ⟨us, rfl, -⟩ := h.eq_cons hcurrent
      obtain ⟨lexeme, pos⟩ := t
      obtain rfl : lexeme = .name text := ht
      have hfirst := follows_declaration b ⟨text, pos⟩ h hentered
      rw [show (⟨.name text, pos⟩ : Token) = Word.token ⟨text, pos⟩ from rfl, Outline.body_word]
      exact hfirst.trans (ih hfirst.stands hfirst.entered)
  | case2 p t hcurrent ht =>
      obtain ⟨us, rfl, hbefore⟩ := h.eq_cons hcurrent
      have hclosed := follows_act h (.closed b t) fun d hd => by cases hd
      have hpassed : (p.act (.closed b t)).Before names s us := hbefore.congr rfl rfl
      rw [Outline.body_end ht, ← hentered]
      exact hclosed.trans hpassed.follows_advance
  | case3 p t hcurrent k hend hk =>
      obtain ⟨us, rfl, -⟩ := h.eq_cons hcurrent
      rw [Outline.body_keyword hk fun heq => hend (heq ▸ rfl)]
      exact follows_syntaxError h hentered rfl
  | case4 p t hcurrent ht ih =>
      obtain ⟨us, rfl, -⟩ := h.eq_cons hcurrent
      have hpassed := follows_extraSemicolons h
      rw [← Outline.body_extraSemicolons]
      exact hpassed.trans (ih hpassed.stands (hpassed.entered.trans hentered))
  | case5 p t hcurrent ht ih | case6 p t hcurrent ht ih | case7 p t hcurrent ht ih
  | case8 p t hcurrent ht ih | case9 p t hcurrent _ ht ih =>
      -- whatever starts no declaration and ends nothing is treated alike
      obtain ⟨us, rfl, -⟩ := h.eq_cons hcurrent
      have hstray : t.Stray := by
        refine ⟨?_, ?_, ?_⟩ <;> simp [Token.name?, Token.Closes, Lexeme.name?, ht]
      have hpassed := follows_syntaxError h hentered b.strayError_inDeclaration.1
      rw [Outline.body_stray hstray]
      exact hpassed.trans (ih hpassed.stands hpassed.entered)
  | case10 p pos hcurrent => exact absurd hcurrent (h.ne_openComment pos)
  | case11 p pos hcurrent =>
      obtain rfl := h.eq_nil hcurrent
      rw [Outline.body_nil]
      exact follows_syntaxError h hentered rfl

/-! ## A file -/

theorem follows_seek (b : Block) (h : At names s ts p) (hentered : p.entered = entered) :
    Follows names s p (Outline.seek s.ending entered b ts) entered (p.seek b) := by
  have hsees := h.sees_eq (.keyword b.keyword)
  rw [Outline.seek, seek]
  by_cases hts : ts.head?.map Token.lexeme = some (.keyword b.keyword)
  · rw [if_pos hts, if_pos (hsees.mpr hts), ← hentered]
    exact .refl h
  · rw [if_neg hts, if_neg (mt hsees.mp hts)]
    exact follows_syntaxError h hentered (by cases b <;> rfl)

/-- The blocks of a file are entered as the outline says. -/
theorem follows_blocks (bs : List Block) (h : At names s ts p) (hentered : p.entered = entered)
    (hfresh : (bs ++ entered).Nodup) :
    Follows names s p (Outline.blocks s.ending entered bs ts)
      (((Block.bodies entered bs ts).map Prod.fst).reverse ++ entered) (blocks bs p) := by
  induction bs generalizing p entered ts with
  | nil =>
      have hsees := h.sees_eq (.keyword .mainEnd)
      rw [Outline.blocks, blocks]
      by_cases hts : ts.head?.map Token.lexeme = some (.keyword .mainEnd)
      · rw [if_pos hts, if_pos (hsees.mpr hts)]
        exact hentered ▸ .refl h
      · rw [if_neg hts, if_neg (mt hsees.mp hts)]
        exact follows_syntaxError h hentered rfl
  | cons b bs ih =>
      obtain ⟨hb, hmore⟩ := List.nodup_cons.mp hfresh
      have hb : b ∉ entered := fun hmem => hb (List.mem_append_right bs hmem)
      have hsought := follows_seek b h hentered
      have hsees := hsought.stands.sees_eq (.keyword b.keyword)
      rw [blocks]
      rcases Outline.seek_cases s.ending entered b ts with ⟨t, rest, hrest, ht⟩ | hmissing
      · -- the block is there, and is entered behind its keyword
        have hstands := hsought.stands
        rw [hrest] at hsees hstands
        have hpassed := hstands.before.follows_advance
        have hentered' : (p.seek b).advance.entered = entered :=
          hpassed.entered.trans hsought.entered
        have hopened := follows_enter hpassed.stands b
        have hbody := follows_body b hopened.stands (hopened.entered.trans (by rw [hentered']))
        have hothers := ih hbody.stands hbody.entered (List.nodup_middle.mpr hfresh)
        have hall := hsought.trans (hpassed.trans (hopened.trans (hbody.trans hothers)))
        rw [if_pos (hsees.mpr (by simp [ht])), Outline.blocks_of_entered hrest ht,
          Outline.bodies_of_entered hb hrest ht]
        simpa [Outline.behind_behind] using hall
      · have hothers := ih hsought.stands hsought.entered hmore
        have hnext : ¬ (p.seek b).sees (.keyword b.keyword) = true := by
          rw [hsees]
          intro hhead
          obtain ⟨t, ht, hlexeme⟩ := Option.map_eq_some_iff.mp hhead
          exact hmissing t ht hlexeme
        rw [if_neg hnext, Outline.blocks_of_missing hmissing,
          Outline.bodies_of_missing hb hmissing]
        exact hsought.trans hothers

/-- Between blocks, reading never stops at a name. -/
theorem name?_head_recoverOutOfBlock (e : Ending) (entered : List Block) (ts : List Token) :
    ∀ t ∈ (Outline.recoverOutOfBlock e entered ts).rest.head?, t.name? = none := by
  intro t ht
  rw [Outline.rest_recoverOutOfBlock, Option.mem_def] at ht
  have hstop := List.head?_dropWhile_not (·.isPassed entered) ts
  rw [ht] at hstop
  obtain ⟨lexeme, pos⟩ := t
  cases lexeme with
  | name text => exact absurd hstop (by simp [Token.isPassed])
  | comma | semicolon | equals | dash | dot | keyword | number => rfl

theorem name?_head_blocks (e : Ending) (entered bs : List Block) (ts : List Token) :
    ∀ t ∈ (Outline.blocks e entered bs ts).rest.head?, t.name? = none := by
  induction bs generalizing entered ts with
  | nil =>
      rw [Outline.blocks]
      split
      · next hts =>
        intro t ht
        rw [Outline.rest_nothing, Option.mem_def] at ht
        rw [ht] at hts
        have hlexeme : t.lexeme = .keyword .mainEnd := Option.some.inj hts
        rw [Token.name?, hlexeme]
        rfl
      · exact name?_head_recoverOutOfBlock e entered ts
  | cons b bs ih =>
      rcases Outline.seek_cases e entered b ts with ⟨t, rest, hrest, ht⟩ | hmissing
      · rw [Outline.blocks_of_entered hrest ht]
        exact ih _ _
      · rw [Outline.blocks_of_missing hmissing]
        exact ih _ _

/-- **A parser that reads a text once does what its outline says.** -/
theorem follows_run (names : NameTable) (builder : β) (text : String) :
    let s := TokenStream.ofText text
    Follows names s (start names builder text) (Outline.ofStream s)
      ((Block.bodies [] Block.all s.tokens).map Prod.fst).reverse (run names builder text) := by
  intro s
  have hpassed := (before_start names builder text).follows_advance
  have hentered : (start names builder text).advance.entered = [] := hpassed.entered
  have hblocks := follows_blocks Block.all hpassed.stands hentered (by decide)
  rw [List.append_nil] at hblocks
  exact hpassed.trans hblocks

/-- **Reading once and reading in two passes come to the same.** -/
theorem parsed_run (names : NameTable) (builder : β) (text : String) :
    (run names builder text).parsed = parse names builder text := by
  have hrun := follows_run names builder text
  have hnames : (run names builder text).scanner.names =
      (TokenStream.ofText text).table names (Outline.ofStream (.ofText text)).rest := by
    -- reading does not stop at a name, so the symbol that it stops at adds none
    have hhead := name?_head_blocks (TokenStream.ofText text).ending [] Block.all
      (TokenStream.ofText text).tokens
    have hstands := hrun.stands
    generalize hrest : (Outline.ofStream (.ofText text)).rest = rest at hstands
    cases hstands with
    | @token t ts _ hsuffix hcurrent hbefore =>
        have ht : t.name? = none := hhead t (congrArg List.head? hrest)
        rw [hbefore.names, TokenStream.table_cons hsuffix, ht]
        rfl
    | eof _ _ hnames => exact hnames
  have hevents := hrun.events
  have hprogress := hrun.progress
  rw [hnames] at hevents hprogress
  simp only [parsed, hnames, hevents, hprogress, hrun.stands.current_eq]
  rfl

/--
**Parsing does not depend on the network.** Whatever two builders answer, the parser takes the same
symbols and stops at the same symbol, enters the same blocks and the same names, and finds the same
faults of form.
-/
theorem run_independent {γ : Type} [NetworkBuilder γ] (names : NameTable) (builder : β)
    (other : γ) (text : String) :
    let p := run names builder text
    let q := run names other text
    (p.parsed = parse names builder text ∧ q.parsed = parse names other text) ∧
      p.taken = q.taken ∧ p.current = q.current ∧ p.entered = q.entered ∧
      p.scanner.names = q.scanner.names ∧ p.parsed.formFaults = q.parsed.formFaults := by
  intro p q
  have hp := follows_run names builder text
  have hq := follows_run names other text
  have hparsed : p.parsed = parse names builder text := parsed_run names builder text
  have hparsed' : q.parsed = parse names other text := parsed_run names other text
  refine ⟨⟨hparsed, hparsed'⟩, hp.stands.taken_eq hq.stands, ?_, ?_, ?_, ?_⟩
  · exact hp.stands.current_eq.trans hq.stands.current_eq.symm
  · exact hp.entered.trans hq.entered.symm
  · exact (congrArg Parsed.names hparsed).trans (congrArg Parsed.names hparsed').symm
  · rw [hparsed, hparsed', Parsed.formFaults_parse, Parsed.formFaults_parse]

end Parser

end LogicNet
