import LogicNet.Network.Scripted
import LogicNet.Proofs.Faults

/-!
# One fault for each broken declaration

Inside a block, a broken declaration costs itself and nothing else. To say so without a reader, the
text of a block is cut at its semicolons: a stretch of tokens between two of them is a declaration,
or it is empty, or it is broken, and then there is one place at which it stops being the beginning
of any declaration. The faults reported in a block are those of its stretches, in order.

Surplus semicolons are noticed in two places, by the reader of the block and by the recovery that
has just passed a semicolon. The two agree, so that recovery may be taken to end right behind the
first semicolon.
-/

namespace LogicNet

open Text (Position)

/-- A stretch of a block without a semicolon or an `END`, which starts with no keyword. -/
structure Segment where
  tokens : List Token
  inner : ∀ t ∈ tokens, ¬ t.Closes
  start : ∀ t ∈ tokens.head?, ∀ k, t.lexeme ≠ .keyword k

/--
What stands in a block behind its keyword: segments, each closed by a semicolon, perhaps a last one
that runs into the `END`, and the `END`.
-/
structure BlockText where
  segments : List (Segment × Position)
  last : Option Segment
  last_ne_nil : ∀ s ∈ last, s.tokens ≠ []
  endPos : Position

namespace BlockText

/-- The segments, each with the token that closes it. -/
def stretches (t : BlockText) : List (List Token × Token) :=
  t.segments.map (fun s => (s.1.tokens, ⟨.semicolon, s.2⟩)) ++
    t.last.toList.map fun s => (s.tokens, ⟨.keyword .endBlock, t.endPos⟩)

/-- The tokens of the text. -/
def tokens (t : BlockText) : List Token :=
  t.segments.flatMap (fun s => s.1.tokens ++ [⟨.semicolon, s.2⟩]) ++
    t.last.toList.flatMap Segment.tokens ++ [⟨.keyword .endBlock, t.endPos⟩]

end BlockText

/-- The faults of a stretch with the token that closes it. -/
inductive Block.Judges (b : Block) : List Token × Token → List FormFault → Prop
  /-- The stretch is a declaration. -/
  | declaration {d : Declaration} {ts : List Token} {closer : Token} :
      b.Declares d (ts ++ [closer]) → Judges b (ts, closer) []
  /-- Nothing stands before the semicolon. -/
  | surplus {closer : Token} :
      closer.lexeme = .semicolon → Judges b ([], closer) [(.extraSemicolon, .token closer)]
  /-- The stretch is a beginning of a declaration up to `t`, and none with `t`. -/
  | broken {ts pre post : List Token} {t closer : Token} {error : SyntaxError} :
      ts ≠ [] → ts ++ [closer] = pre ++ t :: post → b.Begins pre → ¬ b.Begins (pre ++ [t]) →
      error.InDeclaration → Judges b (ts, closer) [(error, .token t)]

/-- A list is cut in one way only at the first token that closes something. -/
theorem Token.Closes.cut_unique {as bs us vs : List Token} {c d : Token} (hc : c.Closes)
    (hd : d.Closes) (has : ∀ t ∈ as, ¬ t.Closes) (hbs : ∀ t ∈ bs, ¬ t.Closes)
    (h : as ++ c :: us = bs ++ d :: vs) : as = bs ∧ c = d ∧ us = vs := by
  induction as generalizing bs with
  | nil =>
      cases bs with
      | nil => exact ⟨rfl, List.cons.inj h⟩
      | cons b bs => exact absurd ((List.cons.inj h).1 ▸ hc) (hbs b (by simp))
  | cons a as ih =>
      cases bs with
      | nil => exact absurd ((List.cons.inj h).1 ▸ hd) (has a (by simp))
      | cons b bs =>
          obtain ⟨rfl, htail⟩ := List.cons.inj h
          obtain ⟨rfl, hcd, huv⟩ := ih (fun t ht => has t (by simp [ht]))
            (fun t ht => hbs t (by simp [ht])) htail
          exact ⟨rfl, hcd, huv⟩

/-- A declaration ends at the first token that closes anything. -/
theorem Block.Declares.cut {b : Block} {d : Declaration} {ts us more rest : List Token}
    {closer : Token} (h : b.Declares d us) (hcloser : closer.Closes) (hts : ∀ t ∈ ts, ¬ t.Closes)
    (heq : ts ++ closer :: more = us ++ rest) :
    us = ts ++ [closer] ∧ rest = more ∧ closer.lexeme = .semicolon := by
  obtain ⟨vs, p, rfl, hvs⟩ := h.eq_snoc
  rw [List.append_assoc, List.singleton_append] at heq
  obtain ⟨rfl, rfl, rfl⟩ := hcloser.cut_unique (.inl rfl) hts hvs heq
  exact ⟨rfl, rfl, rfl⟩

/-- What begins a declaration and holds a token that closes something is a declaration. -/
theorem Block.Begins.declares {b : Block} {ts more : List Token} {closer : Token}
    (h : b.Begins (ts ++ closer :: more)) (hcloser : closer.Closes) (hts : ∀ t ∈ ts, ¬ t.Closes) :
    ∃ d, b.Declares d (ts ++ [closer]) := by
  obtain ⟨d, us, hd⟩ := h
  have heq : ts ++ closer :: (more ++ us) = ts ++ closer :: more ++ us ++ [] := by simp
  exact ⟨d, (hd.cut hcloser hts heq).1 ▸ hd⟩

namespace Outline

variable {e : Ending} {entered : List Block} {b : Block}

/-! ## Recovery ends behind the first semicolon, or at the `END` -/

/-- Where reading goes on after a token that closes a declaration. -/
def resume (closer : Token) (more : List Token) : List Token :=
  if closer.lexeme = .semicolon then more else closer :: more

theorem report_of_inDeclaration {error : SyntaxError} (h : error.InDeclaration) (ts : List Token) :
    report e entered error ts = (recoverInBlock e ts).behind [.fault error (e.current ts)] := by
  simp [report, h.1, h.2]

/-- Recovery passes over what closes nothing. -/
theorem recoverInBlock_append {ts : List Token} (h : ∀ t ∈ ts, ¬ t.Closes) {rest : List Token}
    (hrest : rest ≠ []) : recoverInBlock e (ts ++ rest) = recoverInBlock e rest := by
  induction ts with
  | nil => rfl
  | cons t ts ih =>
      have ht : ¬ t.Closes := h t (by simp)
      have hmore : ts ++ rest ≠ [] := by simp [hrest]
      rw [List.cons_append, recoverInBlock, Ending.arrival_of_ne_nil hmore,
        ih fun u hu => h u (by simp [hu])]
      split
      · next heq => exact absurd (.inr heq) ht
      · next heq => exact absurd (.inl heq) ht
      · rfl

/-- The recovery that has passed a semicolon and the reader of the block notice the same. -/
theorem body_extraSemicolons (ts : List Token) :
    (body e entered b (extraSemicolons e ts).rest).behind (extraSemicolons e ts).items =
      body e entered b ts := by
  induction ts with
  | nil => rfl
  | cons t ts ih =>
      unfold extraSemicolons
      split
      · next ht => rw [body_semicolon ht, ← ih, behind_behind, rest_behind, items_behind]
      · rfl

/-- After recovery the block is read as if the token that closes the broken stretch were next. -/
theorem body_recoverInBlock {ts : List Token} (h : ∀ t ∈ ts, ¬ t.Closes) {closer : Token}
    (hcloser : closer.Closes) {more : List Token}
    (hmore : closer.lexeme = .semicolon → more ≠ []) :
    (body e entered b (recoverInBlock e (ts ++ closer :: more)).rest).behind
        (recoverInBlock e (ts ++ closer :: more)).items =
      body e entered b (resume closer more) := by
  rw [recoverInBlock_append h (by simp), recoverInBlock]
  rcases hcloser with hsemi | hend
  · -- recovery goes on over surplus semicolons, as the block would
    rw [hsemi, resume, if_pos hsemi, ← body_extraSemicolons more,
      Ending.arrival_of_ne_nil (hmore hsemi)]
    rfl
  · rw [hend, resume, if_neg (by simp [hend])]
    rfl

/-! ## One stretch -/

/-- A broken stretch costs one fault, at the first token that cannot stand where it does. -/
theorem body_report {error : SyntaxError} (herror : error.InDeclaration) (pre : List Token)
    {ts : List Token} (hts : ∀ t ∈ ts, ¬ t.Closes) {closer : Token} (hcloser : closer.Closes)
    {more : List Token} (hmore : closer.lexeme = .semicolon → more ≠ []) (hne : pre ++ ts ≠ [])
    (hbegins : b.Begins pre) (hstop : ∀ t ∈ (ts ++ [closer]).head?, ¬ b.Begins (pre ++ [t])) :
    ∃ items, b.Judges (pre ++ ts, closer) (Item.formFaults items) ∧
      (body e entered b (report e entered error (ts ++ closer :: more)).rest).behind
          (report e entered error (ts ++ closer :: more)).items =
        (body e entered b (resume closer more)).behind items := by
  obtain ⟨t, post, hpost⟩ : ∃ t post, ts ++ [closer] = t :: post := by
    cases ts with
    | nil => exact ⟨closer, [], rfl⟩
    | cons t ts => exact ⟨t, ts ++ [closer], rfl⟩
  have hcurrent : e.current (ts ++ closer :: more) = .token t := by
    have heq : ts ++ closer :: more = t :: (post ++ more) := by
      rw [← List.cons_append, ← hpost, List.append_assoc, List.singleton_append]
    rw [heq]
    rfl
  refine ⟨[.fault error (.token t)], ?_, ?_⟩
  · have hfaults : Item.formFaults [.fault error (.token t)] = [(error, .token t)] := by
      simp [Item.formFaults, Item.fault?, LogicNet.formFaults, Diagnostic.formFault?,
        herror.ne_incompleteNetwork]
    rw [hfaults]
    have hsplit : pre ++ ts ++ [closer] = pre ++ t :: post := by rw [List.append_assoc, hpost]
    exact .broken hne hsplit hbegins (hstop t (by simp [hpost])) herror
  · rw [report_of_inDeclaration herror, hcurrent, rest_behind, items_behind, ← behind_behind,
      body_recoverInBlock hts hcloser hmore]

/-- **A stretch of a block is read as it is judged**, and reading goes on right behind it. -/
theorem body_stretch {ts : List Token} (hinner : ∀ t ∈ ts, ¬ t.Closes)
    (hstart : ∀ t ∈ ts.head?, ∀ k, t.lexeme ≠ .keyword k) (hne : ts ≠ []) {closer : Token}
    (hcloser : closer.Closes) {more : List Token} (hmore : closer.lexeme = .semicolon → more ≠ []) :
    ∃ items, b.Judges (ts, closer) (Item.formFaults items) ∧
      body e entered b (ts ++ closer :: more) =
        (body e entered b (resume closer more)).behind items := by
  obtain ⟨t, us, rfl⟩ := List.exists_cons_of_ne_nil hne
  have hus : ∀ u ∈ us, ¬ u.Closes := fun u hu => hinner u (by simp [hu])
  by_cases hname : t.name? = none
  · -- a token that starts no declaration
    have hstray : t.Stray := ⟨hname, hinner t (by simp), hstart t rfl⟩
    have hnone : ¬ b.Begins [t] := by
      intro hbegins
      obtain ⟨d, vs, hd⟩ := hbegins
      obtain ⟨w, ws, hw⟩ := hd.eq_cons
      obtain rfl : t = w.token := (List.cons.inj hw).1
      exact absurd hname (by simp [Token.name?, Word.token, Lexeme.name?])
    obtain ⟨items, hjudged, hread⟩ := body_report b.strayError_inDeclaration [] hinner hcloser hmore
      hne b.begins_nil (by simpa using hnone)
    refine ⟨items, hjudged, ?_⟩
    rw [← hread, List.cons_append, body_stray hstray]
  · obtain ⟨text, htext⟩ := Option.ne_none_iff_exists'.mp hname
    obtain ⟨w, rfl⟩ : ∃ w : Word, t = w.token := ⟨⟨text, t.pos⟩, t.eq_word htext⟩
    rw [List.cons_append, body_word]
    rcases declaration_cases e entered b w (us ++ closer :: more) with
      ⟨d, vs, rest, hd, heq, hread⟩ |
      ⟨hnone, error, pre, rest, herror, heq, hbegins, hstop, hread⟩
    · obtain ⟨hvs, rfl, hsemi⟩ := hd.cut hcloser hinner (congrArg (w.token :: ·) heq)
      rw [hvs] at hd
      refine ⟨[.declared d], .declaration hd, ?_⟩
      rw [hread, Ending.arrival_of_ne_nil (hmore hsemi), resume, if_pos hsemi]
      rfl
    · -- the fault is found before the token that closes the stretch is passed
      obtain ⟨vs, rfl, rfl⟩ : ∃ vs, us = pre ++ vs ∧ rest = vs ++ closer :: more := by
        rcases List.append_eq_append_iff.mp heq with ⟨vs, rfl, hvs⟩ | h
        · cases vs with
          | nil => exact ⟨[], by simp, by simpa using hvs.symm⟩
          | cons v vs =>
              obtain ⟨rfl, rfl⟩ := List.cons.inj hvs
              obtain ⟨d, hd⟩ := Block.Begins.declares hbegins hcloser hinner
              have hprefix : us ++ [closer] <+: us ++ closer :: (vs ++ rest) :=
                ⟨vs ++ rest, by simp⟩
              exact absurd hprefix (hnone d (us ++ [closer]) hd)
        · exact h
      have hvs : ∀ t ∈ vs, ¬ t.Closes := fun t ht => hus t (by simp [ht])
      obtain ⟨items, hjudged, hbody⟩ := body_report herror (w.token :: pre) hvs hcloser hmore
        (by simp) hbegins (by
          intro t ht
          refine hstop t ?_
          cases vs with
          | nil => exact ht
          | cons v vs => exact ht)
      refine ⟨items, hjudged, ?_⟩
      rw [← hbody, hread, rest_behind, items_behind, Ending.arrival_of_ne_nil (by simp)]
      rfl

theorem formFaults_extraSemicolon (t : Token) :
    Item.formFaults [.fault .extraSemicolon (.token t)] = [(.extraSemicolon, .token t)] := rfl

/-! ## All of them -/

variable (e entered b)

theorem body_segment (s : Segment) (p : Position) {rest : List Token} (hrest : rest ≠ []) :
    ∃ items, b.Judges (s.tokens, ⟨.semicolon, p⟩) (Item.formFaults items) ∧
      body e entered b (s.tokens ++ ⟨.semicolon, p⟩ :: rest) =
        (body e entered b rest).behind items := by
  by_cases hne : s.tokens = []
  · -- the semicolon is a surplus one
    refine ⟨[.fault .extraSemicolon (.token ⟨.semicolon, p⟩)], ?_, ?_⟩
    · rw [hne, formFaults_extraSemicolon]
      exact .surplus rfl
    · rw [hne, List.nil_append, body_semicolon rfl, Ending.arrival_of_ne_nil hrest]
  · exact body_stretch s.inner s.start hne (.inl rfl) fun _ => hrest

theorem body_segments (segments : List (Segment × Position)) {rest : List Token}
    (hrest : rest ≠ []) :
    ∃ items, Form.Many b.Judges (segments.map fun s => (s.1.tokens, ⟨.semicolon, s.2⟩))
        (Item.formFaults items) ∧
      body e entered b (segments.flatMap (fun s => s.1.tokens ++ [⟨.semicolon, s.2⟩]) ++ rest) =
        (body e entered b rest).behind items := by
  induction segments with
  | nil => exact ⟨[], .nil, rfl⟩
  | cons s segments ih =>
      obtain ⟨items, hjudged, hread⟩ := ih
      have hmore : segments.flatMap (fun s => s.1.tokens ++ [⟨.semicolon, s.2⟩]) ++ rest ≠ [] := by
        simp [hrest]
      obtain ⟨first, hfirst, hbody⟩ := body_segment e entered b s.1 s.2 hmore
      refine ⟨first ++ items, ?_, ?_⟩
      · rw [Item.formFaults_append]
        exact .cons hfirst hjudged
      · rw [List.flatMap_cons, List.append_assoc, List.append_assoc, List.singleton_append, hbody,
          hread, behind_behind]

theorem body_last (t : BlockText) (rest : List Token) :
    ∃ items, Form.Many b.Judges
        (t.last.toList.map fun s => (s.tokens, ⟨.keyword .endBlock, t.endPos⟩))
        (Item.formFaults items) ∧
      body e entered b (t.last.toList.flatMap Segment.tokens ++
          ⟨.keyword .endBlock, t.endPos⟩ :: rest) =
        (body e entered b (⟨.keyword .endBlock, t.endPos⟩ :: rest)).behind items := by
  cases hlast : t.last with
  | none => exact ⟨[], .nil, rfl⟩
  | some s =>
      have hcloser : Token.Closes ⟨.keyword .endBlock, t.endPos⟩ := .inr rfl
      have hmore : (⟨.keyword .endBlock, t.endPos⟩ : Token).lexeme = .semicolon → rest ≠ [] := by
        simp
      obtain ⟨items, hjudged, hread⟩ := body_stretch (e := e) (b := b) s.inner s.start
        (t.last_ne_nil s hlast) hcloser hmore
      refine ⟨items, .singleton hjudged, ?_⟩
      rw [Option.toList_some, List.flatMap_singleton]
      exact hread

/-- The text of a block is read as its stretches are judged, up to its `END` and no further. -/
theorem body_blockText (t : BlockText) (rest : List Token) :
    ∃ items, Form.Many b.Judges t.stretches (Item.formFaults items) ∧
      body e entered b (t.tokens ++ rest) =
        ⟨items ++ .closed b ⟨.keyword .endBlock, t.endPos⟩ :: e.arrival rest, rest⟩ := by
  obtain ⟨items, hjudged, hread⟩ := body_last e entered b t rest
  have hmore : t.last.toList.flatMap Segment.tokens ++
      ⟨.keyword .endBlock, t.endPos⟩ :: rest ≠ [] := by simp
  obtain ⟨first, hfirst, hbody⟩ := body_segments e entered b t.segments hmore
  refine ⟨first ++ items, ?_, ?_⟩
  · rw [Item.formFaults_append]
    exact hfirst.append hjudged
  · rw [BlockText.tokens, List.append_assoc, List.append_assoc, List.singleton_append, hbody, hread,
      body_end rfl]
    simp [behind]

end Outline

/--
**One fault for each broken declaration.** Whatever stands in a block up to its `END`, reading it
passes the `END` and nothing behind it, and the faults of form that are reported, whatever the
builder answers, are those of its stretches in order: none for a declaration, a surplus semicolon
for an empty stretch, and one at the place where it breaks for any other. A comment that is left
open behind the `END` comes last.
-/
theorem formFaults_blockText {β : Type} [NetworkBuilder β] (ids : String → NameId) (p : Progress β)
    (e : Ending) (entered : List Block) (b : Block) (t : BlockText) (rest : List Token) :
    (Outline.body e entered b (t.tokens ++ rest)).rest = rest ∧
      ∃ faults, Form.Many b.Judges t.stretches faults ∧
        formFaults (Event.diagnostics
            (p.steps ids (Outline.body e entered b (t.tokens ++ rest)).items).1) =
          faults ++ if rest = [] then
            (e.openComment.map fun q => (.unterminatedComment, .openComment q)).toList
          else [] := by
  obtain ⟨items, hjudged, hread⟩ := Outline.body_blockText e entered b t rest
  refine ⟨by rw [hread], Item.formFaults items, hjudged, ?_⟩
  rw [Progress.formFaults_steps, hread, Item.formFaults_append, Item.formFaults_cons,
    Ending.formFaults_arrival]
  rfl

/-- A block with a declaration, a broken one, a surplus semicolon and one that runs into `END`. -/
def BlockText.fourStretches : BlockText where
  segments :=
    [(⟨[⟨.name "OR", ⟨1, 1⟩⟩, ⟨.equals, ⟨1, 4⟩⟩, ⟨.name "G", ⟨1, 6⟩⟩],
        by simp [Token.Closes], by simp⟩, ⟨1, 7⟩),
      (⟨[⟨.name "SWITCH", ⟨1, 9⟩⟩, ⟨.number 0, ⟨1, 16⟩⟩, ⟨.equals, ⟨1, 18⟩⟩,
        ⟨.name "S", ⟨1, 20⟩⟩], by simp [Token.Closes], by simp⟩, ⟨1, 21⟩),
      (⟨[], by simp, by simp⟩, ⟨1, 23⟩)]
  last := some ⟨[⟨.name "DTYPE", ⟨1, 25⟩⟩, ⟨.equals, ⟨1, 31⟩⟩, ⟨.name "F", ⟨1, 33⟩⟩],
    by simp [Token.Closes], by simp⟩
  last_ne_nil := by simp
  endPos := ⟨1, 35⟩

/-- Each stretch that is no declaration costs a fault. A refused device is no fault of form. -/
theorem formFaults_fourStretches :
    let t := BlockText.fourStretches
    let builder : Scripted := ⟨[some .noQualifier], [], [], true⟩
    let e : Ending := ⟨none, ⟨1, 47⟩⟩
    let rest : List Token := [⟨.keyword .mainEnd, ⟨1, 39⟩⟩]
    let read := Outline.body e [.devices] .devices (t.tokens ++ rest)
    let faults : List FormFault := [(.noEquals, .token ⟨.number 0, ⟨1, 16⟩⟩),
      (.extraSemicolon, .token ⟨.semicolon, ⟨1, 23⟩⟩),
      (.noSemicolon, .token ⟨.keyword .endBlock, ⟨1, 35⟩⟩)]
    TokenStream.ofText "OR = G; SWITCH 0 = S; ; DTYPE = F END MAIN_END" = ⟨t.tokens ++ rest, e⟩ ∧
      read.rest = rest ∧ Form.Many Block.devices.Judges t.stretches faults ∧
      formFaults (Event.diagnostics
        ((Progress.start builder).steps NameTable.empty.idFor read.items).1) = faults := by
  intro t builder e rest read faults
  have htext : TokenStream.ofText "OR = G; SWITCH 0 = S; ; DTYPE = F END MAIN_END" =
      ⟨t.tokens ++ rest, e⟩ := by
    decide +kernel
  obtain ⟨hrest, judged, hjudged, hfaults⟩ := formFaults_blockText NameTable.empty.idFor
    (.start builder) e [.devices] .devices t rest
  have hread : formFaults (Event.diagnostics
      ((Progress.start builder).steps NameTable.empty.idFor read.items).1) = faults := by
    decide +kernel
  have hsame : judged = faults := by
    rw [hread] at hfaults
    simpa using hfaults.symm
  exact ⟨htext, hrest, hsame ▸ hjudged, hread⟩

end LogicNet
