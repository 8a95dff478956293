import LogicNet.Proofs.Lexing
import LogicNet.Text.Lines
import Mathlib.Data.List.Basic

/-!
# Lines by ending and lines by count

A reader of a text starts a new line at each line feed, and a place is a count of line feeds and of
the characters behind the last of them. An excerpt takes its line from the list of lines, which
drops the carriage return of an ending and has no line behind the last ending. This file shows that
the two agree wherever there is something to see. A line stands in the list at the number of line
feeds above it (`LineAt.getElem?_lines`), and every character that is no part of an ending is in
such a line, at its own column (`exists_lineAt`, `behind_append`).
-/

namespace LogicNet.Text

/-! ## What a line is -/

/-- A new line starts behind the text: it is empty, or a line feed is its end. -/
inductive StartsLine : List Char → Prop where
  | first : StartsLine []
  | next (above : List Char) : StartsLine (above ++ ['\n'])

/--
A line ends with a line feed, with a carriage return and a line feed, or with the text. A carriage
return before the line feed is never left to the line.
-/
inductive EndsLine (line : List Char) : (ending below : List Char) → Prop where
  | feed {below : List Char} : line.getLast? ≠ some '\r' → EndsLine line ['\n'] below
  | returnFeed {below : List Char} : EndsLine line ['\r', '\n'] below
  | stop : EndsLine line [] []

/-- A line of a text without its ending, and what stands above and below it. -/
structure LineAt (text above line below : List Char) : Prop where
  starts : StartsLine above
  whole : '\n' ∉ line
  ends : ∃ ending, EndsLine line ending below ∧ text = above ++ (line ++ (ending ++ below))

/-! ## The list of lines -/

/-- A carriage return before a line feed is part of the ending. -/
theorem lines_return {cs : List Char} (h : cs.head? = some '\n') :
    lines ('\r' :: cs) = lines cs := by
  obtain ⟨cs, rfl⟩ := List.head?_eq_some_iff.mp h
  rfl

theorem lines_cons {c : Char} {cs : List Char} (hc : c ≠ '\n')
    (hreturn : c = '\r' → cs.head? ≠ some '\n') :
    lines (c :: cs) = match lines cs with
      | [] => [[c]]
      | l :: ls => (c :: l) :: ls := by
  rw [lines.eq_def]
  split
  · next h => cases h
  · next h => exact absurd (List.cons.inj h).1 hc
  · next h =>
    obtain ⟨rfl, rfl⟩ := List.cons.inj h
    exact absurd rfl (hreturn rfl)
  · next h =>
    obtain ⟨rfl, rfl⟩ := List.cons.inj h
    rfl

/-- A character within a line makes no other line. -/
theorem length_lines_cons {c : Char} (hc : c ≠ '\n') {cs : List Char} (hcs : lines cs ≠ []) :
    (lines (c :: cs)).length = (lines cs).length := by
  rw [lines.eq_def]
  split
  · next h => cases h
  · next h => exact absurd (List.cons.inj h).1 hc
  · next h =>
    -- a carriage return is part of the ending behind it
    rw [(List.cons.inj h).2]
    rfl
  · next h =>
    obtain ⟨rfl, rfl⟩ := List.cons.inj h
    split
    · next hnil => exact absurd hnil hcs
    · next hcons => rw [hcons]; rfl

theorem lines_ne_nil {cs : List Char} (h : cs ≠ []) : lines cs ≠ [] := by
  rw [lines.eq_def]
  split
  · exact absurd rfl h
  · exact List.cons_ne_nil _ _
  · exact List.cons_ne_nil _ _
  · split <;> exact List.cons_ne_nil _ _

/-- A line that is ended adds one to the lines behind it. -/
theorem length_lines_append {row : List Char} (h : '\n' ∉ row) (cs : List Char) :
    (lines (row ++ '\n' :: cs)).length = (lines cs).length + 1 := by
  induction row with
  | nil => rfl
  | cons c row ih =>
      obtain ⟨hc, hrow⟩ := not_or.mp (List.mem_cons.not.mp h)
      have hne : lines (row ++ '\n' :: cs) ≠ [] := fun hnil => by
        have hlength := ih hrow
        rw [hnil] at hlength
        cases hlength
      rw [List.cons_append, length_lines_cons (Ne.symm hc) hne, ih hrow]

/-- **Lines part behind a line feed.** -/
theorem lines_append_feed (above cs : List Char) :
    lines (above ++ '\n' :: cs) = lines (above ++ ['\n']) ++ lines cs := by
  induction above with
  | nil => rfl
  | cons c above ih =>
      by_cases hc : c = '\n'
      · subst hc
        exact congrArg ([] :: ·) ih
      have hhead : (above ++ '\n' :: cs).head? = (above ++ ['\n']).head? := by
        cases above <;> rfl
      by_cases hreturn : c = '\r' ∧ (above ++ ['\n']).head? = some '\n'
      · obtain ⟨rfl, hfeed⟩ := hreturn
        rw [List.cons_append, List.cons_append, lines_return (hhead.trans hfeed),
          lines_return hfeed, ih]
      · have hno : c = '\r' → (above ++ ['\n']).head? ≠ some '\n' :=
          fun hr hfeed => hreturn ⟨hr, hfeed⟩
        rw [List.cons_append, List.cons_append, lines_cons hc (hhead ▸ hno), lines_cons hc hno, ih]
        cases hlines : lines (above ++ ['\n']) with
        | nil => exact absurd hlines (lines_ne_nil (by simp))
        | cons l ls => rfl

theorem StartsLine.lines_append {above : List Char} (h : StartsLine above) (cs : List Char) :
    lines (above ++ cs) = lines above ++ lines cs := by
  cases h with
  | first => rfl
  | next above =>
      rw [List.append_assoc, List.singleton_append]
      exact lines_append_feed above cs

/-- Each line feed ends a line. -/
theorem length_lines_feed (above : List Char) :
    (lines (above ++ ['\n'])).length = above.count '\n' + 1 := by
  induction above with
  | nil => rfl
  | cons c above ih =>
      by_cases hc : c = '\n'
      · subst hc
        rw [List.count_cons_self]
        exact congrArg (· + 1) ih
      · rw [List.count_cons_of_ne hc, ← ih]
        exact length_lines_cons hc (lines_ne_nil (by simp))

/-- There are as many lines above a line as line feeds. -/
theorem StartsLine.length_lines {above : List Char} (h : StartsLine above) :
    (lines above).length = above.count '\n' := by
  cases h with
  | first => rfl
  | next above => rw [length_lines_feed, List.count_append, List.count_singleton_self]

/-- The characters of a line are characters of the text. -/
theorem mem_of_mem_lines {cs line : List Char} (h : line ∈ lines cs) {c : Char} (hc : c ∈ line) :
    c ∈ cs := by
  induction cs generalizing line with
  | nil => cases h
  | cons d cs ih =>
      by_cases hd : d = '\n'
      · subst hd
        rcases List.mem_cons.mp h with rfl | h
        · cases hc
        · exact List.mem_cons_of_mem _ (ih h hc)
      by_cases hreturn : d = '\r' ∧ cs.head? = some '\n'
      · obtain ⟨rfl, hfeed⟩ := hreturn
        rw [lines_return hfeed] at h
        exact List.mem_cons_of_mem _ (ih h hc)
      rw [lines_cons hd fun hr hfeed => hreturn ⟨hr, hfeed⟩] at h
      cases hlines : lines cs with
      | nil =>
          rw [hlines] at h
          obtain rfl := List.mem_singleton.mp h
          rw [List.mem_singleton.mp hc]
          exact List.mem_cons_self
      | cons l ls =>
          rw [hlines] at h ih
          rcases List.mem_cons.mp h with rfl | h
          · rcases List.mem_cons.mp hc with rfl | hc
            · exact List.mem_cons_self
            · exact List.mem_cons_of_mem _ (ih List.mem_cons_self hc)
          · exact List.mem_cons_of_mem _ (ih (List.mem_cons_of_mem _ h) hc)

/-- A line in front of the rest of its own line. -/
theorem lines_append_of_eq_cons {line tail l : List Char} {more : List (List Char)}
    (hline : '\n' ∉ line) (hend : line.getLast? = some '\r' → tail.head? ≠ some '\n')
    (htail : lines tail = l :: more) : lines (line ++ tail) = (line ++ l) :: more := by
  induction line with
  | nil => exact htail
  | cons c line ih =>
      obtain ⟨hc, hc'⟩ := not_or.mp (List.mem_cons.not.mp hline)
      have hlines : lines (line ++ tail) = (line ++ l) :: more := by
        refine ih hc' fun hlast => hend ?_
        cases line with
        | nil => cases hlast
        | cons d line => rwa [List.getLast?_cons_cons]
      have hreturn : c = '\r' → (line ++ tail).head? ≠ some '\n' := by
        rintro rfl hfeed
        cases line with
        | nil => exact hend rfl hfeed
        | cons d line =>
            cases hfeed
            exact hc' List.mem_cons_self
      rw [List.cons_append, lines_cons (Ne.symm hc) hreturn, hlines, List.cons_append]

theorem lines_of_no_feed {line : List Char} (hline : '\n' ∉ line) (hne : line ≠ []) :
    lines line = [line] := by
  rcases List.eq_nil_or_concat' line with rfl | ⟨init, last, rfl⟩
  · exact absurd rfl hne
  obtain ⟨hinit, hlast⟩ := not_or.mp (List.mem_append.not.mp hline)
  have hlast : last ≠ '\n' := fun heq => hlast (heq ▸ List.mem_singleton_self last)
  have hsingle : lines [last] = [[last]] := lines_cons hlast fun _ hfeed => by cases hfeed
  exact lines_append_of_eq_cons hinit (fun _ hfeed => hlast (Option.some.inj hfeed)) hsingle

/-- **A line with its ending is one line.** -/
theorem EndsLine.lines_eq {line ending below : List Char} (h : EndsLine line ending below)
    (hline : '\n' ∉ line) (hne : line ≠ []) :
    lines (line ++ (ending ++ below)) = line :: lines below := by
  cases h with
  | feed hreturn =>
      have hfeed : lines ('\n' :: below) = [] :: lines below := rfl
      have hall := lines_append_of_eq_cons hline (fun hr => absurd hr hreturn) hfeed
      rwa [List.append_nil] at hall
  | returnFeed =>
      have hfeed : lines ('\r' :: '\n' :: below) = [] :: lines below := rfl
      have hall := lines_append_of_eq_cons hline (fun _ hhead => by cases hhead) hfeed
      rwa [List.append_nil] at hall
  | stop =>
      rw [List.append_nil, List.append_nil]
      exact lines_of_no_feed hline hne

namespace LineAt

variable {text above line below : List Char}

/-- **A line stands in the list where the line feeds above it say.** -/
theorem lines_eq (h : LineAt text above line below) (hne : line ≠ []) :
    lines text = lines above ++ line :: lines below := by
  obtain ⟨ending, hends, rfl⟩ := h.ends
  rw [h.starts.lines_append, hends.lines_eq h.whole hne]

theorem getElem?_lines (h : LineAt text above line below) (hne : line ≠ []) :
    (lines text)[above.count '\n']? = some line := by
  rw [h.lines_eq hne, ← h.starts.length_lines, List.getElem?_append_right (Nat.le_refl _),
    Nat.sub_self]
  rfl

end LineAt

/-! ## Every visible character is in a line -/

theorem exists_startsLine (before : List Char) :
    ∃ above left, before = above ++ left ∧ StartsLine above ∧ '\n' ∉ left := by
  induction before using List.reverseRecOn with
  | nil => exact ⟨[], [], rfl, .first, List.not_mem_nil⟩
  | append_singleton before c ih =>
      by_cases hc : c = '\n'
      · subst hc
        exact ⟨before ++ ['\n'], [], (List.append_nil _).symm, .next before, List.not_mem_nil⟩
      · obtain ⟨above, left, rfl, hstarts, hleft⟩ := ih
        refine ⟨above, left ++ [c], List.append_assoc .., hstarts, ?_⟩
        simp [hleft, Ne.symm hc]

theorem exists_endsLine {c : Char} (hc : c ≠ '\r') (left rest : List Char) :
    ∃ right ending below, rest = right ++ (ending ++ below) ∧ '\n' ∉ right ∧
      EndsLine (left ++ c :: right) ending below := by
  by_cases hfeed : '\n' ∈ rest
  · obtain ⟨right, below, rfl, hright⟩ := List.eq_append_cons_of_mem hfeed
    rcases List.eq_nil_or_concat' right with rfl | ⟨init, last, rfl⟩
    · exact ⟨[], ['\n'], below, rfl, hright, .feed (by simpa using hc)⟩
    by_cases hlast : last = '\r'
    · subst hlast
      refine ⟨init, ['\r', '\n'], below, ?_, fun hmem => hright ?_, .returnFeed⟩
      · simp
      · exact List.mem_append_left _ hmem
    · refine ⟨init ++ [last], ['\n'], below, rfl, hright, .feed ?_⟩
      rw [← List.cons_append, ← List.append_assoc, List.getLast?_append]
      simpa using hlast
  · exact ⟨rest, [], [], by simp, hfeed, .stop⟩

/-- **A character that is part of no ending is in a line**, with the rest of the text below it. -/
theorem exists_lineAt {c : Char} (hfeed : c ≠ '\n') (hreturn : c ≠ '\r')
    (before rest : List Char) :
    ∃ above left right below, before = above ++ left ∧
      LineAt (before ++ c :: rest) above (left ++ c :: right) below ∧
      ∃ ending, rest = right ++ (ending ++ below) := by
  obtain ⟨above, left, rfl, hstarts, hleft⟩ := exists_startsLine before
  obtain ⟨right, ending, below, rfl, hright, hends⟩ := exists_endsLine hreturn left rest
  refine ⟨above, left, right, below, rfl, ⟨hstarts, ?_, ending, hends, ?_⟩, ending, rfl⟩
  · simp [hleft, hright, Ne.symm hfeed]
  · simp

namespace Position

theorem behind_of_startsLine {above : List Char} (h : StartsLine above) :
    behind above = ⟨1 + above.count '\n', 1⟩ := by
  cases h with
  | first => rfl
  | next above => simp [behind]

/-- **A place counts the line feeds above its line, and the characters to the left of it.** -/
theorem behind_append {above left : List Char} (h : StartsLine above) (hleft : '\n' ∉ left) :
    behind (above ++ left) = ⟨1 + above.count '\n', 1 + left.length⟩ := by
  induction left using List.reverseRecOn with
  | nil => rw [List.append_nil, behind_of_startsLine h, List.length_nil]
  | append_singleton left c ih =>
      obtain ⟨hleft, hc⟩ := not_or.mp (List.mem_append.not.mp hleft)
      have hc : c ≠ '\n' := fun heq => hc (heq ▸ List.mem_singleton_self c)
      rw [← List.append_assoc, behind_concat, ih hleft, next, if_neg hc, List.length_append]
      rfl

end Position

/-! ## The lines up to a number -/

/-- The text up to its line feed number `n`, or all of it if there are not so many. -/
def upToLine : Nat → List Char → List Char
  | 0, _ => []
  | _ + 1, [] => []
  | n + 1, c :: cs => c :: upToLine (if c = '\n' then n else n + 1) cs

theorem upToLine_feed (n : Nat) (cs : List Char) :
    upToLine (n + 1) ('\n' :: cs) = '\n' :: upToLine n cs := rfl

theorem upToLine_cons {c : Char} (hc : c ≠ '\n') (n : Nat) (cs : List Char) :
    upToLine (n + 1) (c :: cs) = c :: upToLine (n + 1) cs := by
  rw [upToLine, if_neg hc]

theorem head?_upToLine (n : Nat) (cs : List Char) : (upToLine (n + 1) cs).head? = cs.head? := by
  cases cs <;> rfl

/-- **Its lines are the first of the text.** -/
theorem lines_upToLine (n : Nat) (cs : List Char) : lines (upToLine n cs) = (lines cs).take n := by
  induction cs generalizing n with
  | nil => cases n <;> rfl
  | cons c cs ih =>
      cases n with
      | zero => rfl
      | succ n =>
          by_cases hc : c = '\n'
          · subst hc
            rw [upToLine_feed]
            exact congrArg ([] :: ·) (ih n)
          rw [upToLine_cons hc]
          have hhead := head?_upToLine n cs
          by_cases hreturn : c = '\r' ∧ cs.head? = some '\n'
          · obtain ⟨rfl, hfeed⟩ := hreturn
            rw [lines_return hfeed, lines_return (hhead.trans hfeed), ih]
          · have hno : c = '\r' → cs.head? ≠ some '\n' := fun hr hfeed => hreturn ⟨hr, hfeed⟩
            rw [lines_cons hc hno, lines_cons hc (hhead ▸ hno), ih]
            cases lines cs with
            | nil => rw [List.take_nil, List.take_succ_cons, List.take_nil]
            | cons l ls => rfl

/-- Nothing is left out if the line feeds are fewer. -/
theorem upToLine_of_count_lt {n : Nat} {cs : List Char} (h : cs.count '\n' < n) :
    upToLine n cs = cs := by
  induction cs generalizing n with
  | nil => cases n <;> rfl
  | cons c cs ih =>
      obtain ⟨n, rfl⟩ := Nat.exists_eq_add_one_of_ne_zero (Nat.ne_of_gt (Nat.zero_lt_of_lt h))
      by_cases hc : c = '\n'
      · subst hc
        rw [List.count_cons_self] at h
        rw [upToLine_feed, ih (Nat.lt_of_succ_lt_succ h)]
      · rw [List.count_cons_of_ne hc] at h
        rw [upToLine_cons hc, ih h]

theorem line_le_of_mem_place {p : Position} {cs : List Char} {x : Placed} (h : x ∈ place p cs) :
    p.line ≤ x.pos.line := by
  induction cs generalizing p with
  | nil => cases h
  | cons c cs ih =>
      rcases List.mem_cons.mp h with rfl | h
      · exact Nat.le_refl _
      · have hnext : p.line ≤ (p.next c).line := by
          unfold Position.next
          split
          · exact Nat.le_succ _
          · exact Nat.le_refl _
        exact hnext.trans (ih h)

theorem upToLine_eq_filter_place (p : Position) (n : Nat) (cs : List Char) :
    upToLine n cs =
      ((place p cs).filter fun x => x.pos.line < p.line + n).map Placed.char := by
  induction cs generalizing p n with
  | nil => cases n <;> rfl
  | cons c cs ih =>
      cases n with
      | zero =>
          have hnone : (place p (c :: cs)).filter (fun x => x.pos.line < p.line + 0) = [] := by
            refine List.filter_eq_nil_iff.mpr fun x hx => ?_
            simpa using line_le_of_mem_place hx
          rw [hnone]
          rfl
      | succ n =>
          have hfirst : p.line < p.line + (n + 1) := by omega
          rw [place, List.filter_cons, if_pos (decide_eq_true hfirst), List.map_cons]
          by_cases hc : c = '\n'
          · have hline : p.line + (n + 1) = (p.next c).line + n := by
              rw [Position.next, if_pos hc]
              show p.line + (n + 1) = p.line + 1 + n
              omega
            rw [hline, ← ih, hc, upToLine_feed]
          · have hline : p.line = (p.next c).line := by rw [Position.next, if_neg hc]
            rw [upToLine_cons hc, hline, ← ih]

/-- **These are the characters whose places are in the lines up to the number.** -/
theorem upToLine_eq_filter (n : Nat) (cs : List Char) :
    upToLine n cs = ((place .start cs).filter fun x => x.pos.line ≤ n).map Placed.char := by
  rw [upToLine_eq_filter_place .start]
  simp only [Position.start, Nat.lt_one_add_iff]

end LogicNet.Text
