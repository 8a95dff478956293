import LogicNet.Proofs.Markers
import LogicNet.Proofs.Sinks
import LogicNet.Proofs.Stopping

/-!
# The names that a run enters

The number of a name is its place in the table, so it matters which names a run enters and in which
order. A scanner enters each name when it returns it, and the parser takes from its scanner the
first symbols of the stream and no others. What it does with them makes no difference: a name that
is passed over after a fault is entered like one that is declared, and a name in a comment or behind
the symbol at which reading stops is never met.

So the table can be told from the symbols that were taken (`Parser.At.names_eq`), and what entering
words one after the other adds to a table is a list without repetitions
(`NameTable.internAll_eq`). `Reporter.names_run` puts the two together.
-/

namespace LogicNet

open Text

/-! ## What entering words adds -/

namespace NameTable

variable {t : NameTable}

/-- The words that a table lacks, each once, in the order in which they come first. -/
def missing (t : NameTable) (words : List String) : List String :=
  (words.filter (· ∉ t.names)).eraseDups

/-- A word that is met first is entered first, and is not missing after that. -/
theorem missing_cons_of_not_mem {w : String} (h : w ∉ t.names) (words : List String) :
    t.missing (w :: words) = w :: (t.intern w).missing words := by
  have hnames : (t.intern w).names = t.names ++ [w] := by simp [intern, h]
  rw [missing, List.filter_cons_of_pos (by simpa using h), List.eraseDups_cons, List.filter_filter,
    missing, hnames]
  congr 2
  refine List.filter_congr fun x _ => ?_
  by_cases hx : x = w <;> simp [hx]

theorem missing_cons_of_mem {w : String} (h : w ∈ t.names) (words : List String) :
    t.missing (w :: words) = t.missing words := by
  rw [missing, List.filter_cons_of_neg (by simpa using h)]
  rfl

/-- **Entering words adds those that were missing.** -/
theorem internAll_eq (t : NameTable) (words : List String) :
    t.internAll words = { t with names := t.names ++ t.missing words } := by
  induction words generalizing t with
  | nil => simp [internAll, missing]
  | cons w words ih =>
      have hstep : t.internAll (w :: words) = (t.intern w).internAll words := rfl
      rw [hstep, ih]
      by_cases h : w ∈ t.names
      · rw [missing_cons_of_mem h, intern_of_mem h]
      · rw [missing_cons_of_not_mem h]
        simp [intern, h]

/-- Words that differ are not repeated. -/
theorem missing_of_nodup {words : List String} (h : words.Nodup) :
    t.missing words = words.filter (· ∉ t.names) := by
  induction words generalizing t with
  | nil => rfl
  | cons w words ih =>
      obtain ⟨hw, hwords⟩ := List.nodup_cons.mp h
      by_cases hmem : w ∈ t.names
      · rw [missing_cons_of_mem hmem, ih hwords, List.filter_cons_of_neg (by simpa using hmem)]
      · rw [missing_cons_of_not_mem hmem, ih hwords, List.filter_cons_of_pos (by simpa using hmem)]
        congr 1
        refine List.filter_congr fun x hx => ?_
        have hne : x ≠ w := fun heq => hw (heq ▸ hx)
        simp [hne]

end NameTable

theorem Keyword.nodup_spellings : Keyword.spellings.Nodup := by decide

/-! ## What is in the table of a parser -/

namespace Parser

variable {β : Type} {names : NameTable} {s : TokenStream} {p : Parser β} {ts pre : List Token}

theorem Before.taken_eq (h : p.Before names s ts) (hpre : s.tokens = pre ++ ts) :
    p.taken = pre.map .token := by
  refine List.append_cancel_right (h.taken.trans ?_)
  rw [TokenStream.symbols, hpre, Ending.symbolsFrom, List.map_append, List.append_assoc]

/-- **The names in the symbols that were taken are in the table**, and no others. -/
theorem At.names_eq (h : At names s ts p) :
    p.scanner.names =
      (names.internAll Keyword.spellings).internAll (p.taken.filterMap Symbol.name?) := by
  have htokens : ∀ us : List Token,
      (us.map Symbol.token).filterMap Symbol.name? = us.filterMap Token.name? := by
    intro us
    rw [List.filterMap_map]
    rfl
  cases h with
  | @token t ts _ hsuffix _ hbefore =>
      obtain ⟨pre, hpre⟩ := hbefore.suffix
      rw [hbefore.names, TokenStream.table, TokenStream.namesBefore_eq hpre.symm,
        hbefore.taken_eq hpre.symm, htokens]
  | eof _ htaken hnames =>
      have hending : s.ending.symbols.filterMap Symbol.name? = [] := by
        rw [Ending.symbols]
        cases s.ending.openComment <;> rfl
      rw [hnames, TokenStream.table, TokenStream.namesBefore_eq (List.append_nil _).symm, htaken,
        TokenStream.symbols, List.filterMap_append, htokens, hending, List.append_nil]

/-- Reading does not stop at a name. -/
theorem name?_current_run [NetworkBuilder β] (names : NameTable) (builder : β) (text : String) :
    (run names builder text).current.name? = none := by
  have hhead := name?_head_blocks (TokenStream.ofText text).ending [] Block.all
    (TokenStream.ofText text).tokens
  have hrun := follows_run names builder text
  rw [hrun.stands.current_eq]
  cases hrest : (Outline.ofStream (.ofText text)).rest with
  | nil => rfl
  | cons t us => exact hhead t (congrArg List.head? hrest)

/-- A name that was taken stands outside the comments, before the symbol at which reading stops. -/
theorem stands_name_run [NetworkBuilder β] (names : NameTable) (builder : β) {text w : String}
    {pos : Position} (h : .token ⟨.name w, pos⟩ ∈ (run names builder text).taken) :
    ∃ before rest, text.toList = before ++ w.toList ++ rest ∧ pos = .behind before ∧
      Even (before.count commentMarker) ∧
        Position.Before pos (run names builder text).current.pos := by
  have hrun := follows_run names builder text
  obtain ⟨htaken, hlast⟩ := hrun.stands.taken_eq_concat
  obtain ⟨before, ahead, htext, hstands, heven⟩ := TokenStream.stands_ofText (htaken.mem h)
  cases hstands with
  | @token _ word rest hwritten =>
      have hword : word = w.toList ∧ word ≠ [] := by
        cases hwritten with
        | name => simp
      obtain ⟨rfl, hne⟩ := hword
      refine ⟨before, rest, by rw [htext, List.append_assoc], rfl,
        heven.resolve_right (by simp [hne]), ?_⟩
      -- the symbol at which reading stops is no name, so it was taken later
      have hordered := (TokenStream.ordered_ofText text).sublist (htaken.map Symbol.pos).sublist
      obtain ⟨pre, hconcat⟩ := List.getLast?_eq_some_iff.mp hlast
      rw [hconcat, List.map_append, List.pairwise_append] at hordered
      rw [hconcat, List.mem_append, List.mem_singleton] at h
      rcases h with h | h
      · exact hordered.2.2 _ (List.mem_map_of_mem h) _ (by simp)
      · have hname := name?_current_run names builder text
        rw [← h] at hname
        cases hname

end Parser

/-! ## A run -/

namespace Reporter

variable {β σ : Type} [NetworkBuilder β] [Sink σ]

/--
**Exactly the names that were read are entered.** Whatever the builder answers and the sink does,
the table of a run is the one that it started with, behind it the keywords that this one lacked, in
their order, and behind those the names that were new in the symbols that were taken, each once, in
the order in which they came first. The symbols that were taken are those up to the one at which
reading stops; so each name that was new stands before that one and outside the comments.
-/
theorem names_run (names : NameTable) (builder : β) (text : String) (locations : Bool) (sink : σ) :
    let s := TokenStream.ofText text
    let r := run names builder text locations sink
    let keywords := Keyword.spellings.filter (· ∉ names.names)
    let read := r.taken.filterMap Symbol.name?
    let new := (read.filter (· ∉ names.names ++ keywords)).eraseDups
    r.reported = parseTo names builder text locations sink ∧
      (Scanner.start names text).names = { names with names := names.names ++ keywords } ∧
      r.scanner.names = { names with names := names.names ++ keywords ++ new } ∧
      (r.taken <+: s.symbols ∧ r.taken.getLast? = some r.current) ∧
      ∀ w ∈ new, ∃ before rest, text.toList = before ++ w.toList ++ rest ∧
        .token ⟨.name w, .behind before⟩ ∈ r.taken ∧
        Even (before.count commentMarker) ∧ (Position.behind before).Before r.current.pos := by
  intro s r keywords read new
  have hparser : r.toParser = Parser.run names builder text :=
    parser_run names builder text locations sink
  have hrun := (Parser.follows_run names builder text).stands
  rw [← hparser] at hrun
  have hstart : (Scanner.start names text).names =
      { names with names := names.names ++ keywords } := by
    rw [Scanner.start, NameTable.internAll_eq, NameTable.missing_of_nodup Keyword.nodup_spellings]
  have hnames : r.scanner.names = { names with names := names.names ++ keywords ++ new } := by
    have htable : r.scanner.names = (Scanner.start names text).names.internAll read := hrun.names_eq
    rw [htable, hstart, NameTable.internAll_eq]
    rfl
  refine ⟨reported_run names builder text locations sink, hstart, hnames, hrun.taken_eq_concat, ?_⟩
  intro w hw
  obtain ⟨hread, -⟩ : w ∈ read ∧ w ∉ names.names ++ keywords := by
    simpa [new, List.mem_eraseDups] using hw
  obtain ⟨symbol, hsymbol, hname⟩ := List.mem_filterMap.mp hread
  obtain ⟨pos, rfl⟩ : ∃ pos, symbol = .token ⟨.name w, pos⟩ := by
    cases symbol with
    | openComment p | eof p => cases hname
    | token t =>
        obtain ⟨lexeme, pos⟩ := t
        cases lexeme with
        | name text => exact ⟨pos, by cases hname; rfl⟩
        | comma | semicolon | equals | dash | dot | keyword | number => cases hname
  have htaken : r.taken = (Parser.run names builder text).taken := congrArg Parser.taken hparser
  obtain ⟨before, rest, htext, rfl, heven, hbefore⟩ :=
    Parser.stands_name_run names builder (htaken ▸ hsymbol)
  refine ⟨before, rest, htext, hsymbol, heven, ?_⟩
  rw [congrArg Parser.current hparser]
  exact hbefore

end Reporter

end LogicNet
