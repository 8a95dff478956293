import Mathlib
import LogicNet.Proofs.Layout
import LogicNet.Proofs.Wiring

/-!
# A circuit written as a definition file

A circuit can be written back: a line for each device, a line for each input that is driven, from
its source to the input, and a line for each monitor. The names are those that a table has for the
numbers of the circuit, and kinds, signals and qualifiers are written as they always are.

Such a file says the sentence it is meant to say, `Circuit.sentence`, if everything in it has a
spelling that is read as one lexeme (`Circuit.tokens_file`). Texts are put together from pieces of
which each ends in a mark or a blank, so that no name and no number runs into the next piece; what
a piece is read as then does not depend on what stands behind it. `Spells` says that, and goes
through appending.
-/

namespace LogicNet

open Text

/-! ## The lines of a file -/

/-- A name as it is shown. -/
def NameTable.shown (t : NameTable) (id : NameId) : String := (t.lookup? id).getD "?"

/-- An input that is driven, and what drives it. -/
structure Link where
  device : NameId
  pin : NameId
  source : Signal
deriving DecidableEq

/-- The inputs that are driven, device by device. -/
def Circuit.links (c : Circuit) : List Link :=
  c.devices.flatMap fun d => d.inputs.filterMap fun i => i.source.map fun s => ⟨d.id, i.pin, s⟩

/-- The line that declares a device. -/
def Device.line (t : NameTable) (d : Device) : String :=
  d.kind.spelling ++ d.qualifier.elim "" (fun q => ", " ++ toString q) ++ " = " ++ t.shown d.id ++
    ";"

/-- The line that connects an input with what drives it. -/
def Link.line (t : NameTable) (l : Link) : String :=
  l.source.text t ++ " - " ++ t.shown l.device ++ "." ++ t.shown l.pin ++ ";"

/-- The line that watches a signal. -/
def Signal.line (t : NameTable) (s : Signal) : String := s.text t ++ ";"

/-- The lines of a block. -/
def Block.lines (b : Block) (body : List String) : List String :=
  b.keyword.spelling :: (body ++ [Keyword.endBlock.spelling])

/-- The definition file of a circuit, with its connections in some order. -/
def Circuit.file (t : NameTable) (links : List Link) (c : Circuit) : String :=
  let lines := Block.devices.lines (c.devices.map (Device.line t)) ++
    Block.connections.lines (links.map (Link.line t)) ++
    Block.monitor.lines (c.monitors.map (Signal.line t)) ++ [Keyword.mainEnd.spelling]
  String.join (lines.map (· ++ "\n"))

/-! ## What the lines are meant to say -/

/-- A word that stands nowhere in particular. -/
def Word.of (text : String) : Word := ⟨text, .start⟩

/-- A signal, with names in place of numbers. -/
def Signal.named (t : NameTable) (s : Signal) : Pin := ⟨t.shown s.device, s.pin.map t.shown⟩

/-- The input of a link, which is a pin like those that drive inputs. -/
def Link.input (l : Link) : Signal := ⟨l.device, some l.pin⟩

def Device.decl (t : NameTable) (d : Device) : DeviceDecl :=
  ⟨.of d.kind.spelling, d.qualifier.map fun q => ⟨q.toNat, .start⟩, .of (t.shown d.id)⟩

def Link.decl (t : NameTable) (l : Link) : ConnectionDecl :=
  ⟨.of (t.shown l.source.device), l.source.pin.map fun p => .of (t.shown p),
    .of (t.shown l.device), .of (t.shown l.pin)⟩

def Signal.decl (t : NameTable) (s : Signal) : MonitorDecl :=
  ⟨.of (t.shown s.device), s.pin.map fun p => .of (t.shown p)⟩

/-- What the definition file of a circuit says. -/
def Circuit.sentence (t : NameTable) (links : List Link) (c : Circuit) : Sentence :=
  ⟨c.devices.map (Device.decl t), links.map (Link.decl t), .start, c.monitors.map (Signal.decl t)⟩

@[simp] theorem Link.first_decl (t : NameTable) (l : Link) :
    (l.decl t).first = l.source.named t := by
  simp [decl, ConnectionDecl.first, Signal.named, Word.of, Function.comp_def]

@[simp] theorem Link.second_decl (t : NameTable) (l : Link) :
    (l.decl t).second = l.input.named t := rfl

@[simp] theorem Signal.watched_decl (t : NameTable) (s : Signal) :
    (s.decl t).watched = s.named t := by
  simp [decl, MonitorDecl.watched, named, Word.of, Function.comp_def]

/-- The lexemes of a pin. -/
def Pin.lexemes (p : Pin) : List Lexeme :=
  .name p.device :: p.label.elim [] fun label => [.dot, .name label]

/-- The lexemes of a declaration. -/
def Declaration.lexemes : Declaration → List Lexeme
  | .device d => .name d.kind.text :: (d.qualifier.elim [] fun n => [.comma, .number n.value]) ++
      [.equals, .name d.name.text, .semicolon]
  | .connection d => d.first.lexemes ++ .dash :: (d.second.lexemes ++ [.semicolon])
  | .monitor d => d.watched.lexemes ++ [.semicolon]

/-- The lexemes of a block. -/
def Block.lexemes (b : Block) (ds : List Declaration) : List Lexeme :=
  .keyword b.keyword :: (ds.flatMap Declaration.lexemes ++ [.keyword .endBlock])

/-- The lexemes of a file. -/
def Sentence.lexemes (s : Sentence) : List Lexeme :=
  Block.devices.lexemes (s.devices.map .device) ++
    Block.connections.lexemes (s.connections.map .connection) ++
    Block.monitor.lexemes (s.monitors.map .monitor) ++ [.keyword .mainEnd]

/-- A token that stands nowhere in particular. -/
def Lexeme.unplaced (l : Lexeme) : Token := ⟨l, .start⟩

theorem Device.declares (t : NameTable) (d : Device) :
    Block.devices.Declares (.device (d.decl t))
      ((Declaration.device (d.decl t)).lexemes.map Lexeme.unplaced) := by
  obtain ⟨id, kind, _ | q, inputs, outputs⟩ := d
  · exact .device
  · exact .qualifiedDevice

theorem Link.declares (t : NameTable) (l : Link) :
    Block.connections.Declares (.connection (l.decl t))
      ((Declaration.connection (l.decl t)).lexemes.map Lexeme.unplaced) := by
  obtain ⟨device, pin, ⟨source, _ | label⟩⟩ := l
  · exact .connection
  · exact .pinConnection

theorem Signal.declares (t : NameTable) (s : Signal) :
    Block.monitor.Declares (.monitor (s.decl t))
      ((Declaration.monitor (s.decl t)).lexemes.map Lexeme.unplaced) := by
  obtain ⟨device, _ | label⟩ := s
  · exact .monitor
  · exact .pinMonitor

/-- Values that have a form, each as it is said, are said one after the other. -/
theorem Form.many_flatMap {α τ : Type} {F : α → List τ → Prop} {say : α → List τ} {as : List α}
    (h : ∀ a ∈ as, F a (say a)) : Many F as (as.flatMap say) := by
  induction as with
  | nil => exact .nil
  | cons a as ih =>
      exact .cons (h a List.mem_cons_self) (ih fun x hx => h x (List.mem_cons_of_mem a hx))

theorem Block.lists_lexemes {b : Block} {ds : List Declaration}
    (h : ∀ d ∈ ds, b.Declares d (d.lexemes.map Lexeme.unplaced)) :
    b.Lists ds .start ((b.lexemes ds).map Lexeme.unplaced) := by
  have hlists : b.Lists ds .start _ := @Lists.intro b ds .start .start _ (Form.many_flatMap h)
  rw [← List.map_flatMap] at hlists
  simpa [lexemes, Lexeme.unplaced] using hlists

/-- The lexemes of the sentence say it. -/
theorem Circuit.says_sentence (t : NameTable) (links : List Link) (c : Circuit) :
    (c.sentence t links).Says ((c.sentence t links).lexemes.map Lexeme.unplaced) := by
  have hdevices : ∀ d ∈ (c.sentence t links).devices.map Declaration.device,
      Block.devices.Declares d (d.lexemes.map Lexeme.unplaced) := by
    simp only [sentence, List.map_map, List.forall_mem_map]
    exact fun d _ => d.declares t
  have hconnections : ∀ d ∈ (c.sentence t links).connections.map Declaration.connection,
      Block.connections.Declares d (d.lexemes.map Lexeme.unplaced) := by
    simp only [sentence, List.map_map, List.forall_mem_map]
    exact fun l _ => l.declares t
  have hmonitors : ∀ d ∈ (c.sentence t links).monitors.map Declaration.monitor,
      Block.monitor.Declares d (d.lexemes.map Lexeme.unplaced) := by
    simp only [sentence, List.map_map, List.forall_mem_map]
    exact fun s _ => s.declares t
  have hsays := @Sentence.Says.intro (c.sentence t links) _ _ _ .start .start .start
    (Block.lists_lexemes hdevices) (Block.lists_lexemes hconnections)
    (Block.lists_lexemes hmonitors)
  simpa [Sentence.lexemes, Lexeme.unplaced] using hsays

/-! ## Texts that are read as they are meant, whatever stands behind them -/

/-- A text is read as some lexemes, and what stands behind it is read as it would be anyway. -/
def Spells (cs : List Char) (ls : List Lexeme) : Prop :=
  ∀ (before rest : List Char) (ts : List Token) (e : Ending), Scans (before ++ cs) rest ts e →
    ∃ us, us.map Token.lexeme = ls ∧ Scans before (cs ++ rest) (us ++ ts) e

/-- What ends a name ends every lexeme. -/
theorem Lexeme.goesOnWith_eq_false {c : Char} (hc : isNamePart c = false) (l : Lexeme) :
    l.goesOnWith c = false := by
  cases l with
  | keyword | name => exact hc
  | number =>
      refine Bool.eq_false_iff.mpr fun hdigit => ?_
      exact absurd (isNumeric_of_isDigit hdigit)
        (Bool.eq_false_iff.mp (isNamePart_eq_false_iff.mp hc).2.1)
  | comma | semicolon | equals | dash | dot => rfl

namespace Spells

variable {as bs cs word : List Char} {ls ms : List Lexeme} {c : Char} {l : Lexeme}

theorem nil : Spells [] [] := by
  intro before rest ts e h
  exact ⟨[], rfl, by simpa using h⟩

theorem append (has : Spells as ls) (hbs : Spells bs ms) : Spells (as ++ bs) (ls ++ ms) := by
  intro before rest ts e h
  rw [← List.append_assoc] at h
  -- a scan goes from the left, but it is put together from the right
  obtain ⟨vs, rfl, h⟩ := hbs _ _ _ _ h
  obtain ⟨us, rfl, h⟩ := has _ _ _ _ h
  exact ⟨us ++ vs, List.map_append, by simpa using h⟩

theorem flatMap {α : Type} {xs : List α} {f : α → List Char} {g : α → List Lexeme}
    (h : ∀ x ∈ xs, Spells (f x) (g x)) : Spells (xs.flatMap f) (xs.flatMap g) := by
  induction xs with
  | nil => exact nil
  | cons x xs ih =>
      exact (h x List.mem_cons_self).append (ih fun y hy => h y (List.mem_cons_of_mem x hy))

theorem blank (hc : isBlank c = true) (h : Spells cs ls) : Spells (c :: cs) ls := by
  intro before rest ts e hscans
  rw [List.append_cons] at hscans
  obtain ⟨us, rfl, hcs⟩ := h _ _ _ _ hscans
  have hall : Scans before ([c] ++ (cs ++ rest)) (us ++ ts) e :=
    .behind_gap (Spacing.blank hc .nil).gap hcs
  exact ⟨us, rfl, hall⟩

theorem lexeme (hword : l.Written word)
    (hstop : ∀ rest, ∀ d ∈ (cs ++ rest).head?, l.goesOnWith d = false) (h : Spells cs ls) :
    Spells (word ++ cs) (l :: ls) := by
  intro before rest ts e hscans
  rw [← List.append_assoc] at hscans
  obtain ⟨us, rfl, hcs⟩ := h _ _ _ _ hscans
  rw [← List.append_nil before] at hcs
  have hall := Scans.lexeme .nil hword (hstop rest) hcs
  rw [List.append_nil, List.nil_append, ← List.append_assoc] at hall
  exact ⟨⟨l, .behind before⟩ :: us, rfl, hall⟩

theorem mark (hc : mark? c = some l) (h : Spells cs ls) : Spells (c :: cs) (l :: ls) := by
  obtain ⟨-, -, -, hwritten, hstop⟩ := mark?_eq_some hc
  exact lexeme hwritten (fun _ d _ => hstop d) h

/-- A word or a number has to be followed by something else. -/
theorem followed (hword : l.Written word) (hc : isNamePart c = false) (h : Spells (c :: cs) ls) :
    Spells (word ++ c :: cs) (l :: ls) := by
  refine lexeme hword ?_ h
  intro rest d hd
  obtain rfl : c = d := by simpa using hd
  exact l.goesOnWith_eq_false hc

end Spells

/-! ## Names and numbers -/

/-- A number stands for a name that is read as a name. -/
def NameTable.Spelt (t : NameTable) (id : NameId) : Prop :=
  ∃ name, t.lookup? id = some name ∧ (Lexeme.name name).Written name.toList

/-- The names of a signal are read as names. -/
def Signal.Spelt (t : NameTable) (s : Signal) : Prop :=
  t.Spelt s.device ∧ ∀ p ∈ s.pin, t.Spelt p

/-- Whatever is written of a circuit is read as a lexeme. -/
structure Circuit.Spelt (t : NameTable) (c : Circuit) : Prop where
  devices : ∀ d ∈ c.devices, t.Spelt d.id
  numbers : ∀ d ∈ c.devices, ∀ q ∈ d.qualifier, 0 ≤ q ∧ q ≤ numberLimit
  links : ∀ l ∈ c.links, l.source.Spelt t ∧ t.Spelt l.device ∧ t.Spelt l.pin
  monitors : ∀ s ∈ c.monitors, s.Spelt t

section

variable {t : NameTable} {id : NameId}

theorem NameTable.Spelt.lookup? (h : t.Spelt id) : t.lookup? id = some (t.shown id) := by
  obtain ⟨name, hname, -⟩ := h
  rw [shown, hname]
  rfl

theorem NameTable.Spelt.written (h : t.Spelt id) :
    (Lexeme.name (t.shown id)).Written (t.shown id).toList := by
  obtain ⟨name, hname, hwritten⟩ := h
  rw [shown, hname]
  exact hwritten

/-- A word that is no keyword is read as a name. -/
theorem Lexeme.written_name {name : String} (hhead : name.toList.head?.any isAlphabetic = true)
    (htail : name.toList.tail.all isNamePart = true) (hkeyword : Keyword.ofSpelling? name = none) :
    (Lexeme.name name).Written name.toList := by
  cases hname : name.toList with
  | nil => simp [hname] at hhead
  | cons c cs =>
      rw [hname] at hhead htail
      have hother : ∀ k : Keyword, k.spelling.toList ≠ c :: cs := by
        intro k hk
        rw [← hname, String.toList_inj, ← Keyword.ofSpelling?_eq_some_iff, hkeyword] at hk
        cases hk
      have hwritten : (Lexeme.name (String.ofList (c :: cs))).Written (c :: cs) :=
        .name hhead (List.all_eq_true.mp htail) hother
      rwa [← hname, String.ofList_toList, hname] at hwritten

/-- The types and the pins have names that are read as names. -/
theorem Catalogue.written_of_mem_vocabulary {name : String} (h : name ∈ vocabulary) :
    (Lexeme.name name).Written name.toList := by
  have hall : vocabulary.all (fun name => name.toList.head?.any isAlphabetic &&
      (name.toList.tail.all isNamePart && (Keyword.ofSpelling? name).isNone)) = true := by
    decide +kernel
  have hname := List.all_eq_true.mp hall name h
  rw [Bool.and_eq_true, Bool.and_eq_true, Option.isNone_iff_eq_none] at hname
  exact Lexeme.written_name hname.1 hname.2.1 hname.2.2

/-- A number that is not too large is read from its digits. -/
theorem Lexeme.written_toString {q : Int} (hleast : 0 ≤ q) (hmost : q ≤ numberLimit) :
    (Lexeme.number q.toNat).Written (toString q).toList := by
  obtain ⟨n, rfl⟩ := Int.eq_ofNat_of_zero_le hleast
  have htext : (toString (n : Int)).toList = Nat.toDigits 10 n := Nat.toList_repr
  -- the digits denote the number, and it is not beyond the limit
  have hvalue : decimalValue (Nat.toDigits 10 n) = n := by
    have hdigits : Nat.ofDigitChars 10 (Nat.toDigits 10 n) 0 = n := Nat.ofDigitChars_ten_toDigits
    rwa [Nat.ofDigitChars_eq_foldl] at hdigits
  have hdigits : ∀ d ∈ Nat.toDigits 10 n, d.isDigit = true := fun d hd =>
    Nat.isDigit_of_mem_toDigits (by decide) (by decide) hd
  have hwritten := Lexeme.Written.number Nat.toDigits_ne_nil hdigits
  rw [← decimalValue_eq_ofDigits, hvalue, Nat.min_eq_left] at hwritten
  · rwa [htext]
  · simpa [numberLimit] using hmost

end

/-! ## A file is read as the sentence that it is meant to say -/

variable {t : NameTable} {c : Circuit} {links : List Link}

theorem Signal.spells_text {s : Signal} (hs : s.Spelt t) {d : Char} {cs : List Char}
    {ls : List Lexeme} (hd : isNamePart d = false) (h : Spells (d :: cs) ls) :
    Spells ((s.text t).toList ++ d :: cs) ((s.named t).lexemes ++ ls) := by
  obtain ⟨hdevice, hpin⟩ := hs
  obtain ⟨device, _ | pin⟩ := s
  · exact .followed hdevice.written hd h
  · have hpin := hpin pin rfl
    have htext : Signal.text t ⟨device, some pin⟩ = t.shown device ++ "." ++ t.shown pin := by
      simp only [Signal.text, Option.bind_some, hpin.lookup?]
      rfl
    have hspells : Spells ((t.shown device).toList ++ '.' :: ((t.shown pin).toList ++ d :: cs))
        (.name (t.shown device) :: .dot :: .name (t.shown pin) :: ls) :=
      .followed hdevice.written (by decide) (.mark rfl (.followed hpin.written hd h))
    simpa [htext, named, Pin.lexemes] using hspells

theorem Device.spells_line {d : Device} (hid : t.Spelt d.id)
    (hnumber : ∀ q ∈ d.qualifier, 0 ≤ q ∧ q ≤ numberLimit) :
    Spells (d.line t).toList (Declaration.device (d.decl t)).lexemes := by
  have hkind := Catalogue.written_of_mem_vocabulary (Catalogue.spelling_mem_vocabulary d.kind)
  -- the end of the line is the same with a qualifier and without
  have hname : Spells (' ' :: '=' :: ' ' :: ((t.shown d.id).toList ++ [';']))
      [.equals, .name (t.shown d.id), .semicolon] :=
    .blank (by decide) (.mark rfl (.blank (by decide)
      (.followed hid.written (by decide) (.mark rfl .nil))))
  cases hq : d.qualifier with
  | none =>
      have hspells := Spells.followed hkind (by decide) hname
      simpa [line, decl, hq, Declaration.lexemes, Word.of] using hspells
  | some q =>
      obtain ⟨hleast, hmost⟩ := hnumber q hq
      have hnumber := Spells.followed (Lexeme.written_toString hleast hmost) (by decide) hname
      have hcomma : Spells (',' :: ' ' :: _) (.comma :: _) :=
        .mark rfl (.blank (by decide) hnumber)
      have hspells := Spells.followed hkind (by decide) hcomma
      simpa [line, decl, hq, Declaration.lexemes, Word.of] using hspells

theorem Link.spells_line {l : Link} (hsource : l.source.Spelt t) (hdevice : t.Spelt l.device)
    (hpin : t.Spelt l.pin) :
    Spells (l.line t).toList (Declaration.connection (l.decl t)).lexemes := by
  have hinput : Spells ((t.shown l.device).toList ++ '.' :: ((t.shown l.pin).toList ++ [';']))
      ((l.input.named t).lexemes ++ [.semicolon]) :=
    .followed hdevice.written (by decide) (.mark rfl
      (.followed hpin.written (by decide) (.mark rfl .nil)))
  have hdash : Spells (' ' :: '-' :: ' ' :: _) (.dash :: _) :=
    .blank (by decide) (.mark rfl (.blank (by decide) hinput))
  have hspells := Signal.spells_text hsource (by decide) hdash
  simpa [line, Declaration.lexemes] using hspells

theorem Signal.spells_line {s : Signal} (hs : s.Spelt t) :
    Spells (s.line t).toList (Declaration.monitor (s.decl t)).lexemes := by
  have hend : Spells [';'] [.semicolon] := .mark rfl .nil
  have hspells := Signal.spells_text hs (by decide) hend
  simpa [line, Declaration.lexemes] using hspells

theorem Spells.lineFeed : Spells ['\n'] [] := .blank (by decide) .nil

theorem Keyword.spells_line (k : Keyword) : Spells (k.spelling ++ "\n").toList [.keyword k] := by
  have hspells := Spells.followed (.keyword k) (by decide) .lineFeed
  simpa using hspells

theorem Block.spells_lines (b : Block) {α : Type} {xs : List α} {line : α → String}
    {decl : α → Declaration} (h : ∀ x ∈ xs, Spells (line x).toList (decl x).lexemes) :
    Spells ((b.lines (xs.map line)).flatMap fun l => (l ++ "\n").toList)
      (b.lexemes (xs.map decl)) := by
  have hbody : Spells (xs.flatMap fun x => (line x ++ "\n").toList)
      (xs.flatMap fun x => (decl x).lexemes) := by
    refine .flatMap fun x hx => ?_
    have hline := (h x hx).append .lineFeed
    simpa using hline
  have hspells := b.keyword.spells_line.append (hbody.append Keyword.endBlock.spells_line)
  simpa [lines, lexemes, List.flatMap_map] using hspells

/-- **The file of a circuit is read as what it is meant to say.** -/
theorem Circuit.spells_file (h : c.Spelt t) (hlinks : links ⊆ c.links) :
    Spells (c.file t links).toList (c.sentence t links).lexemes := by
  have hdevices := Block.devices.spells_lines fun d (hd : d ∈ c.devices) =>
    Device.spells_line (h.devices d hd) (h.numbers d hd)
  have hconnections := Block.connections.spells_lines fun l (hl : l ∈ links) =>
    Link.spells_line (h.links l (hlinks hl)).1 (h.links l (hlinks hl)).2.1
      (h.links l (hlinks hl)).2.2
  have hmonitors := Block.monitor.spells_lines fun s (hs : s ∈ c.monitors) =>
    Signal.spells_line (h.monitors s hs)
  have hspells := ((hdevices.append hconnections).append hmonitors).append
    Keyword.mainEnd.spells_line
  simpa [file, sentence, Sentence.lexemes, String.toList_join, List.flatMap_map,
    Function.comp_def] using hspells

/-- **The file of a circuit has the tokens of its sentence**, wherever they stand. -/
theorem Circuit.tokens_file (h : c.Spelt t) (hlinks : links ⊆ c.links) :
    (TokenStream.ofText (c.file t links)).unplaced.tokens =
      (c.sentence t links).lexemes.map Lexeme.unplaced := by
  obtain ⟨us, hus, hscans⟩ := spells_file h hlinks [] [] [] _ (.ends .nil)
  rw [← TokenStream.behind_nil, ← hus, ← List.append_nil (c.file t links).toList, hscans.behind_eq,
    List.append_nil, List.map_map]
  rfl

end LogicNet
