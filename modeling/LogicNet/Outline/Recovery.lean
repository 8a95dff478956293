import LogicNet.Outline.Basic

/-!
# Finding the way after a fault

A fault inside a block costs the declaration it is in: reading goes on behind the next semicolon, or
at the end of the block. A fault between blocks costs what stands before the next block that was not
entered yet. On the way, surplus semicolons and blocks that start again are noted as faults.
-/

namespace LogicNet

namespace Outline

/-- Pass over semicolons, each of which is one too many. -/
def extraSemicolons (e : Ending) : List Token → Outline
  | [] => nothing []
  | t :: ts =>
    match t.lexeme with
    | .semicolon =>
      (extraSemicolons e ts).behind (.fault .extraSemicolon (.token t) :: e.arrival ts)
    | _ => nothing (t :: ts)

/-- Go on behind the next semicolon and those that follow it, or at the end of the block. -/
def recoverInBlock (e : Ending) : List Token → Outline
  | [] => nothing []
  | t :: ts =>
    match t.lexeme with
    | .keyword .endBlock => nothing (t :: ts)
    | .semicolon => (extraSemicolons e ts).behind (e.arrival ts)
    | _ => (recoverInBlock e ts).behind (e.arrival ts)

/-- Go on at the next block that was not entered, or at the keyword that ends the file. -/
def recoverOutOfBlock (e : Ending) (entered : List Block) : List Token → Outline
  | [] => nothing []
  | t :: ts =>
    match t.lexeme with
    | .keyword .mainEnd => nothing (t :: ts)
    | .keyword k =>
      match Block.ofKeyword? k with
      | some b =>
        if b ∈ entered then
          (recoverOutOfBlock e entered ts).behind
            (.fault b.duplicateError (.token t) :: e.arrival ts)
        else nothing (t :: ts)
      | none => (recoverOutOfBlock e entered ts).behind (e.arrival ts)
    | _ => (recoverOutOfBlock e entered ts).behind (e.arrival ts)

/-- Note an error at the symbol before the reader, and go on as the error's plan says. -/
def report (e : Ending) (entered : List Block) (error : SyntaxError) (ts : List Token) : Outline :=
  let passed := if error.plan.advance then e.advance ts else nothing ts
  let recovered :=
    match error.plan.recovery with
    | .stay => nothing passed.rest
    | .inBlock => recoverInBlock e passed.rest
    | .outOfBlock => recoverOutOfBlock e entered passed.rest
  recovered.behind (.fault error (e.current ts) :: passed.items)

/-! ## Where reading goes on is further down -/

theorem rest_extraSemicolons_suffix (e : Ending) (ts : List Token) :
    (extraSemicolons e ts).rest <:+ ts := by
  induction ts with
  | nil => exact List.suffix_refl _
  | cons t ts ih =>
      unfold extraSemicolons
      split
      · exact ih.trans (List.suffix_cons t ts)
      · exact List.suffix_refl _

theorem rest_recoverInBlock_suffix (e : Ending) (ts : List Token) :
    (recoverInBlock e ts).rest <:+ ts := by
  induction ts with
  | nil => exact List.suffix_refl _
  | cons t ts ih =>
      unfold recoverInBlock
      split
      · exact List.suffix_refl _
      · exact (rest_extraSemicolons_suffix e ts).trans (List.suffix_cons t ts)
      · exact ih.trans (List.suffix_cons t ts)

/-- A token that does not end the block is passed over. -/
theorem rest_recoverInBlock_cons_suffix (e : Ending) {t : Token} {ts : List Token}
    (h : t.lexeme ≠ .keyword .endBlock) : (recoverInBlock e (t :: ts)).rest <:+ ts := by
  unfold recoverInBlock
  split
  · next ht => exact absurd ht h
  · exact rest_extraSemicolons_suffix e ts
  · exact rest_recoverInBlock_suffix e ts

theorem rest_recoverOutOfBlock_suffix (e : Ending) (entered : List Block) (ts : List Token) :
    (recoverOutOfBlock e entered ts).rest <:+ ts := by
  induction ts with
  | nil => exact List.suffix_refl _
  | cons t ts ih =>
      unfold recoverOutOfBlock
      split
      · exact List.suffix_refl _
      · split
        · split
          · exact ih.trans (List.suffix_cons t ts)
          · exact List.suffix_refl _
        · exact ih.trans (List.suffix_cons t ts)
      · exact ih.trans (List.suffix_cons t ts)

theorem rest_report_suffix (e : Ending) (entered : List Block) (error : SyntaxError)
    (ts : List Token) : (report e entered error ts).rest <:+ ts := by
  have passed : (if error.plan.advance then e.advance ts else nothing ts).rest <:+ ts := by
    split
    · exact e.rest_advance_suffix ts
    · exact List.suffix_refl _
  simp only [report, rest_behind]
  split
  · exact passed
  · exact (rest_recoverInBlock_suffix e _).trans passed
  · exact (rest_recoverOutOfBlock_suffix e entered _).trans passed

end Outline

end LogicNet
