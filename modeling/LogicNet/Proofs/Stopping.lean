import Mathlib
import LogicNet.Network.Scripted
import LogicNet.Proofs.Independence

/-!
# Where reading stops

The blocks of a file are sought in their order, and what stands between them is passed over up to
`MAIN_END` or the keyword of a block that was not entered. That is where a block that is sought
later can still be found. A block that was sought before cannot: its turn is over, and yet its
keyword is not passed over. So if all blocks were sought and there is still the keyword of one that
was missed, reading stops there, and what is behind it is never looked at
(`Parser.run_misses_comment`).

This is the only way to stop early. `Block.leftover` says without a reader what is left of a text
when all blocks were sought, and reading goes on to `MAIN_END` or to the end of the text exactly if
no keyword of a missed block stands there before `MAIN_END` (`Parser.run_stops`).
-/

namespace LogicNet

open Text (Position)

/-- Whether a file ends at a symbol. -/
def Symbol.EndsFile (symbol : Symbol) : Prop :=
  (∃ p, symbol = .eof p) ∨ ∃ p, symbol = .token ⟨.keyword .mainEnd, p⟩

theorem Symbol.endsFile_token {t : Token} :
    (Symbol.token t).EndsFile ↔ t.lexeme = .keyword .mainEnd := by
  obtain ⟨lexeme, p⟩ := t
  simp [EndsFile]

/-- Whether a token is the keyword of a block that was not entered. -/
def Token.StartsNew (entered : List Block) (t : Token) : Prop :=
  ∃ b, t.lexeme = .keyword b.keyword ∧ b ∉ entered

/-- The blocks that are entered when all were sought in turn, and what is then left of the text. -/
def Block.leftover (entered : List Block) : List Block → List Token → List Block × List Token
  | [], ts => (entered, ts)
  | b :: bs, ts =>
    match ts.dropWhile (·.isPassed entered) with
    | [] => leftover entered bs []
    | t :: rest =>
      if t.lexeme = .keyword b.keyword then leftover (b :: entered) bs (b.contents [] rest).rest
      else leftover entered bs (t :: rest)

/-! ## What is passed over -/

theorem Token.isPassed_eq_false_iff {entered : List Block} {t : Token} :
    t.isPassed entered = false ↔ t.lexeme = .keyword .mainEnd ∨ t.StartsNew entered := by
  obtain ⟨lexeme, p⟩ := t
  cases lexeme with
  | comma | semicolon | equals | dash | dot | number | name => simp [isPassed, StartsNew]
  | keyword k =>
      by_cases hk : k = .mainEnd
      · simp [isPassed, hk]
      · cases hof : Block.ofKeyword? k with
        | none =>
            have hnew : ∀ b : Block, k ≠ b.keyword := by
              intro b hb
              rw [Block.ofKeyword?_eq_some_iff.mpr hb] at hof
              cases hof
            simp [isPassed, StartsNew, hk, hof, hnew]
        | some b =>
            obtain rfl := Block.ofKeyword?_eq_some_iff.mp hof
            have hinj : ∀ c : Block, b.keyword = c.keyword → b = c := by
              intro c hc
              rw [hc, Block.ofKeyword?_eq_some_iff.mpr rfl] at hof
              exact (Option.some.inj hof).symm
            have hnew : (∃ c : Block, b.keyword = c.keyword ∧ c ∉ entered) ↔ b ∉ entered := by
              refine ⟨?_, fun hmem => ⟨b, rfl, hmem⟩⟩
              intro h
              obtain ⟨c, hc, hmem⟩ := h
              rw [hinj c hc]
              exact hmem
            simp [isPassed, StartsNew, hk, hof, hnew]

theorem Token.StartsNew.ne_mainEnd {entered : List Block} {t : Token} (h : t.StartsNew entered) :
    t.lexeme ≠ .keyword .mainEnd := by
  obtain ⟨b, hb, -⟩ := h
  rw [hb]
  cases b <;> simp [Block.keyword]

/-- What is passed over ends at `MAIN_END` if no block that is new starts before. -/
theorem forall_not_startsNew_iff {entered : List Block} {ts : List Token} :
    (∀ t ∈ ts.takeWhile (·.lexeme != .keyword .mainEnd), ¬ t.StartsNew entered) ↔
      ∀ t ∈ (ts.dropWhile (·.isPassed entered)).head?, t.lexeme = .keyword .mainEnd := by
  induction ts with
  | nil => simp
  | cons t ts ih =>
      rw [List.takeWhile_cons, List.dropWhile_cons]
      cases hpassed : t.isPassed entered with
      | true =>
          have hstop : ¬ t.isPassed entered = false := by simp [hpassed]
          obtain ⟨hmain, hnew⟩ := not_or.mp (mt Token.isPassed_eq_false_iff.mpr hstop)
          rw [if_pos (bne_iff_ne.mpr hmain), if_pos rfl, List.forall_mem_cons, ih]
          exact and_iff_right hnew
      | false =>
          rw [if_neg Bool.false_ne_true]
          rcases Token.isPassed_eq_false_iff.mp hpassed with hmain | hnew
          · simp [hmain]
          · rw [if_pos (bne_iff_ne.mpr hnew.ne_mainEnd)]
            simp [hnew, hnew.ne_mainEnd]

namespace Outline

variable {e : Ending} {entered bs : List Block} {b : Block} {ts rest : List Token} {t : Token}

/-- Once all blocks were sought, the end of the file is. -/
theorem rest_blocks_nil (e : Ending) (entered : List Block) (ts : List Token) :
    (blocks e entered [] ts).rest = ts.dropWhile (·.isPassed entered) := by
  rw [blocks]
  split
  · next hts =>
    obtain ⟨t, ht, hlexeme⟩ := Option.map_eq_some_iff.mp hts
    obtain ⟨us, rfl⟩ := List.head?_eq_some_iff.mp ht
    rw [List.dropWhile_cons, Token.isPassed_eq_false_iff.mpr (.inl hlexeme)]
    rfl
  · exact rest_recoverOutOfBlock e entered ts

/-- **Reading stops at the first token that is left and is not passed over.** -/
theorem rest_blocks (e : Ending) (hfresh : (bs ++ entered).Nodup) (ts : List Token) :
    (blocks e entered bs ts).rest =
      (Block.leftover entered bs ts).2.dropWhile
        (·.isPassed (Block.leftover entered bs ts).1) := by
  induction bs generalizing entered ts with
  | nil => exact rest_blocks_nil e entered ts
  | cons b bs ih =>
      obtain ⟨hb, hmore⟩ := List.nodup_cons.mp hfresh
      have hb : b ∉ entered := fun hmem => hb (List.mem_append_right bs hmem)
      have hsought := rest_seek e hb ts
      -- either the block was found and entered, or its turn is over
      rcases seek_cases e entered b ts with ⟨t, rest, hrest, ht⟩ | hmissing
      · rw [blocks_of_entered hrest ht, rest_behind, ih (List.nodup_middle.mpr hfresh), rest_body]
        rw [hrest] at hsought
        simp only [Block.leftover, ← hsought, ht, if_true]
      · rw [blocks_of_missing hmissing, rest_behind, ih hmore]
        rw [hsought] at hmissing ⊢
        rw [Block.leftover]
        cases hdrop : ts.dropWhile (·.isPassed entered) with
        | nil => rfl
        | cons t rest =>
            have ht : t.lexeme ≠ .keyword b.keyword := hmissing t (by simp [hdrop])
            simp only [ht, if_false]

end Outline

namespace Block

/-- The blocks that are entered are those whose bodies are read. -/
theorem fst_leftover (entered bs : List Block) (ts : List Token) :
    (leftover entered bs ts).1 = ((bodies entered bs ts).map Prod.fst).reverse ++ entered := by
  induction bs generalizing entered ts with
  | nil => rfl
  | cons b bs ih =>
      rw [leftover, bodies]
      cases ts.dropWhile (·.isPassed entered) with
      | nil => exact ih entered []
      | cons t rest =>
          by_cases ht : t.lexeme = .keyword b.keyword
          · simp only [ht, if_true]
            rw [ih, List.map_cons, List.reverse_cons, List.append_assoc]
            rfl
          · simp only [ht, if_false]
            exact ih entered _

/-- What is left of a text stands at its end. -/
theorem snd_leftover_suffix (entered bs : List Block) (ts : List Token) :
    (leftover entered bs ts).2 <:+ ts := by
  induction bs generalizing entered ts with
  | nil => exact List.suffix_refl _
  | cons b bs ih =>
      have hdrop := List.dropWhile_suffix (l := ts) (·.isPassed entered)
      rw [leftover]
      split
      · exact (ih entered []).trans List.nil_suffix
      · next t rest heq =>
        rw [heq] at hdrop
        split
        · exact (ih _ _).trans ((rest_contents_suffix b [] rest).trans
            ((List.suffix_cons t rest).trans hdrop))
        · exact (ih _ _).trans hdrop

end Block

/-! ## A text -/

namespace Parser

variable {β : Type}

/-- What was taken is what the parser looks at, and all that stands before it. -/
theorem At.taken_eq_concat {names : NameTable} {s : TokenStream} {ts : List Token} {p : Parser β}
    (h : At names s ts p) : p.taken <+: s.symbols ∧ p.taken.getLast? = some p.current := by
  cases h with
  | @token t ts p hsuffix hcurrent hbefore =>
      refine ⟨⟨_, hbefore.taken⟩, ?_⟩
      obtain ⟨pre, hpre⟩ := hsuffix
      have htaken : p.taken = pre.map .token ++ [.token t] := by
        refine List.append_cancel_right (hbefore.taken.trans ?_)
        rw [TokenStream.symbols, ← hpre, Ending.symbolsFrom]
        simp
      rw [htaken, hcurrent, List.getLast?_concat]
  | eof hcurrent htaken =>
      refine ⟨⟨[], by rw [htaken, List.append_nil]⟩, ?_⟩
      rw [htaken, hcurrent, TokenStream.symbols, Ending.symbols, ← List.append_assoc,
        List.getLast?_concat]

variable [NetworkBuilder β]

/--
**Reading stops early only before the keyword of a block that was missed.** What was taken is the
symbol at which reading stops and all that stands before it. That symbol is `MAIN_END`, or the end
of the text, or the keyword of a block that was not entered; and it is one of the first two exactly
if no keyword of such a block stands before `MAIN_END` in what is left when all blocks were sought.
-/
theorem run_stops (names : NameTable) (builder : β) (text : String) :
    let s := TokenStream.ofText text
    let p := run names builder text
    let left := Block.leftover [] Block.all s.tokens
    p.parsed = parse names builder text ∧
      (p.taken <+: s.symbols ∧ p.taken.getLast? = some p.current) ∧
      (p.entered = left.1 ∧ left.2 <:+ s.tokens) ∧
      (p.current.EndsFile ∨ ∃ t, p.current = .token t ∧ t.StartsNew p.entered) ∧
      (p.current.EndsFile ↔
        ∀ t ∈ left.2.takeWhile (·.lexeme != .keyword .mainEnd), ¬ t.StartsNew left.1) := by
  intro s p left
  have hrun := follows_run names builder text
  have hentered : p.entered = left.1 := by
    rw [hrun.entered, Block.fst_leftover, List.append_nil]
  have hrest : (Outline.ofStream s).rest = left.2.dropWhile (·.isPassed left.1) :=
    Outline.rest_blocks s.ending (by decide) s.tokens
  have hcurrent : p.current = s.ending.current (left.2.dropWhile (·.isPassed left.1)) := by
    rw [← hrest]
    exact hrun.stands.current_eq
  refine ⟨parsed_run names builder text, hrun.stands.taken_eq_concat,
    ⟨hentered, Block.snd_leftover_suffix _ _ _⟩, ?_⟩
  -- only what is not passed over decides, which is next when all blocks were sought
  rw [forall_not_startsNew_iff, hentered, hcurrent]
  have hhead := List.head?_dropWhile_not (·.isPassed left.1) left.2
  cases hahead : left.2.dropWhile (·.isPassed left.1) with
  | nil =>
      have heof : (s.ending.current []).EndsFile := .inl ⟨_, rfl⟩
      exact ⟨.inl heof, by simp [heof]⟩
  | cons t us =>
      rw [hahead] at hhead
      rw [Ending.current, Symbol.endsFile_token]
      refine ⟨?_, by simp⟩
      exact (Token.isPassed_eq_false_iff.mp hhead).imp_right fun hnew => ⟨t, rfl, hnew⟩

set_option maxRecDepth 2000 in
/-- A comment that is left open behind a block out of order is never found. -/
theorem run_misses_comment :
    let text := "MONITOR END DEVICES END #"
    let builder : Scripted := ⟨[], [], [], true⟩
    let s := TokenStream.ofText text
    let p := run .empty builder text
    s.ending.openComment = some ⟨1, 25⟩ ∧ s.tokens.all (·.lexeme != .keyword .mainEnd) = true ∧
      p.current = .token ⟨.keyword .devices, ⟨1, 13⟩⟩ ∧ ¬ p.current.EndsFile ∧
      p.parsed.diagnostics =
        [⟨.syntactic .expectedDevices, .token ⟨.keyword .monitor, ⟨1, 1⟩⟩⟩,
          ⟨.syntactic .expectedConnections, .token ⟨.keyword .monitor, ⟨1, 1⟩⟩⟩,
          ⟨.syntactic .noMainEnd, .token ⟨.keyword .devices, ⟨1, 13⟩⟩⟩] := by
  intro text builder s p
  have hparsed : p.parsed = parse .empty builder text := parsed_run .empty builder text
  have hstop : p.current = .token ⟨.keyword .devices, ⟨1, 13⟩⟩ := by
    rw [show p.current = (parse .empty builder text).stop from congrArg Parsed.stop hparsed]
    unfold builder text
    cbv
  refine ⟨?_, ?_, hstop, ?_, ?_⟩
  · unfold s text
    cbv
  · unfold s text
    cbv
  · rw [hstop, Symbol.endsFile_token]
    decide
  · rw [hparsed]
    unfold builder text
    cbv

end Parser

end LogicNet
