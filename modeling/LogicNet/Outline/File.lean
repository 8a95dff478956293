import LogicNet.Outline.Recovery

/-!
# The outline of a file

The blocks are read in their order, and behind the last one stands the keyword that ends the file.
Nothing behind that keyword is read. Each fault is noted where it is found and reading goes on, so
that one outline lists every fault of a file.
-/

namespace LogicNet

namespace Outline

/-- Read a declaration, behind its first name. -/
def declaration (e : Ending) (entered : List Block) (b : Block) (first : Word) (ts : List Token) :
    Outline :=
  match b.reader first ts with
  | .ok d rest => ⟨e.arrival rest ++ [.declared d], rest⟩
  | .error error rest => (report e entered error rest).behind (e.arrival rest)

theorem rest_declaration_suffix (e : Ending) (entered : List Block) (b : Block) (first : Word)
    (ts : List Token) : (declaration e entered b first ts).rest <:+ ts := by
  have read := b.leavesSuffix_reader first ts
  unfold declaration
  split
  · next h => rw [h] at read; exact read
  · next h => rw [h] at read; exact (rest_report_suffix e entered _ _).trans read

/-- A token that neither starts a declaration nor ends the block is passed over. -/
theorem rest_report_strayError_suffix (e : Ending) (entered : List Block) (b : Block) {t : Token}
    {ts : List Token} (h : t.lexeme ≠ .keyword .endBlock) :
    (report e entered b.strayError (t :: ts)).rest <:+ ts := by
  cases b <;> exact rest_recoverInBlock_cons_suffix e h

/-- Read the declarations of a block up to its end, behind its keyword. -/
def body (e : Ending) (entered : List Block) (b : Block) : List Token → Outline
  | [] => report e entered .noEnd []
  | t :: ts =>
    match _h : t.lexeme with
    | .name text =>
      let first := declaration e entered b ⟨text, t.pos⟩ ts
      (body e entered b first.rest).behind first.items
    | .keyword .endBlock => ⟨.closed b t :: e.arrival ts, ts⟩
    | .keyword _ => report e entered .noEnd (t :: ts)
    | .semicolon =>
      (body e entered b ts).behind (.fault .extraSemicolon (.token t) :: e.arrival ts)
    | .comma | .equals | .dash | .dot | .number _ =>
      let stray := report e entered b.strayError (t :: ts)
      (body e entered b stray.rest).behind stray.items
termination_by ts => ts.length
decreasing_by
  · have := (rest_declaration_suffix e entered b ⟨text, t.pos⟩ ts).length_le
    simp only [List.length_cons]
    omega
  · simp
  all_goals
    have : (report e entered b.strayError (t :: ts)).rest.length ≤ ts.length :=
      (rest_report_strayError_suffix e entered b (by simp [_h])).length_le
    simp only [List.length_cons]
    omega

/-- Note the error that a block is missing, unless its keyword is next. -/
def seek (e : Ending) (entered : List Block) (b : Block) (ts : List Token) : Outline :=
  if ts.head?.map Token.lexeme = some (.keyword b.keyword) then nothing ts
  else report e entered b.missingError ts

/--
Read the blocks that are still to come, and the end of the file. A block that does not turn up is
left out, and so is whatever stands in its place up to the next block.
-/
def blocks (e : Ending) (entered : List Block) : List Block → List Token → Outline
  | [], ts =>
    if ts.head?.map Token.lexeme = some (.keyword .mainEnd) then nothing ts
    else report e entered .noMainEnd ts
  | b :: bs, ts =>
    let sought := seek e entered b ts
    match sought.rest with
    | [] => (blocks e entered bs []).behind sought.items
    | t :: rest =>
      if t.lexeme = .keyword b.keyword then
        let found := body e (b :: entered) b rest
        (blocks e (b :: entered) bs found.rest).behind
          (sought.items ++ e.arrival rest ++ .opened b :: found.items)
      else (blocks e entered bs (t :: rest)).behind sought.items

/-- The outline of a file. -/
def ofStream (s : TokenStream) : Outline :=
  (blocks s.ending [] Block.all s.tokens).behind (s.ending.arrival s.tokens)

end Outline

namespace TokenStream

/--
The names in the tokens before `rest`. Reading stops at a keyword or at the end of the text, so
these are all the names that a reader which stops at `rest` has seen.
-/
def namesBefore (s : TokenStream) (rest : List Token) : List String :=
  (s.tokens.take (s.tokens.length - rest.length)).filterMap Token.name?

end TokenStream

end LogicNet
