import Mathlib
import LogicNet.Proofs.DeviceTable
import LogicNet.Proofs.Scanner

/-!
# Names kept both ways

A table of names is asked for the number of a name and for the name of a number. A program that must
be quick at both keeps every name twice, in a map under the name and in an array under the number,
and it counts the error codes that it gave away in a machine word. Nothing but care keeps the two
halves in step.

`NameStore.Keeps` says which table such a store keeps, and a store that keeps a table is a bijection
(`NameStore.Keeps.bijective`). `NameStore.Serves` says that a program on a store does what a program
on the table does. It holds of entering a name (`NameStore.serves_intern`) and passes to whatever is
made of that, so a catalogue, a circuit and a scanner that share a store are those over the table.
-/

namespace LogicNet

open Text (Position)

/-! ## The store -/

/-- Codes that are given away together, from the first up to the one behind the last. -/
structure CodeRange where
  first : USize
  stop : USize
deriving DecidableEq

/-- Names under their spellings and under their numbers, and how many error codes are taken. -/
structure NameStore where
  ids : Std.HashMap String NameId
  strings : Array String
  codes : USize

namespace NameStore

/-- A store without names. -/
def empty : NameStore := ⟨∅, #[], 0⟩

/-- How many names the store holds. -/
def size (s : NameStore) : Nat := s.strings.size

/-- The number of `name`, if it was entered. -/
def query? (s : NameStore) (name : String) : Option NameId := s.ids[name]?

/-- The name behind a number, if the number is in use. -/
def lookup? (s : NameStore) (id : NameId) : Option String := s.strings[id.index]?

/-- Answer the number of a name, and enter the name in both halves if it is new. -/
def intern (name : String) : StateM NameStore NameId := do
  let s ← get
  match s.ids[name]? with
  | some id => return id
  | none =>
      let id : NameId := ⟨s.strings.size⟩
      modify fun s => { s with strings := s.strings.push name }
      modify fun s => { s with ids := s.ids.insert name id }
      return id

/-- Give away the next `count` codes. -/
def reserveCodes (count : USize) : StateM NameStore CodeRange := do
  let first := (← get).codes
  modify fun s => { s with codes := s.codes + count }
  return ⟨first, (← get).codes⟩

variable {s : NameStore} {t : NameTable} {name : String}

theorem intern_of_some {id : NameId} (h : s.ids[name]? = some id) : intern name s = (id, s) := by
  simp only [intern, bind, StateT.bind, get, getThe, MonadStateOf.get, StateT.get, pure, h]
  rfl

theorem intern_of_none (h : s.ids[name]? = none) :
    intern name s = (⟨s.strings.size⟩,
      { s with
        strings := s.strings.push name
        ids := s.ids.insert name ⟨s.strings.size⟩ }) := by
  simp only [intern, bind, StateT.bind, get, getThe, MonadStateOf.get, StateT.get, pure, h]
  rfl

/-! ## The table that a store keeps -/

/-- A store keeps a table: both halves of the store tell what the table tells. -/
structure Keeps (s : NameStore) (t : NameTable) : Prop where
  strings : s.strings.toList = t.names
  ids : ∀ name, s.ids[name]? = t.query? name
  codes : s.codes = .ofNat t.codes
  nodup : t.names.Nodup

theorem keeps_empty : empty.Keeps .empty where
  strings := rfl
  ids := fun name => by
    rw [empty, Std.HashMap.getElem?_empty]
    rfl
  codes := rfl
  nodup := List.nodup_nil

theorem Keeps.query?_eq (h : s.Keeps t) (name : String) : s.query? name = t.query? name :=
  h.ids name

theorem Keeps.lookup?_eq (h : s.Keeps t) (id : NameId) : s.lookup? id = t.lookup? id := by
  rw [lookup?, NameTable.lookup?, ← h.strings, Array.getElem?_toList]

theorem Keeps.size_eq (h : s.Keeps t) : s.size = t.size := by
  rw [size, NameTable.size, ← h.strings, Array.length_toList]

theorem Keeps.reserveCodes (h : s.Keeps t) (count : USize) :
    (reserveCodes count s).2.Keeps (t.reserveCodes count.toNat) where
  strings := h.strings
  ids := h.ids
  codes := by
    have hcodes : s.codes + count = .ofNat (t.codes + count.toNat) := by
      rw [h.codes, USize.ofNat_add, USize.ofNat_toNat]
    exact hcodes
  nodup := h.nodup

end NameStore

namespace NameTable

variable {t : NameTable}

/-- **Each way leads back**, where no name was entered twice. -/
theorem query?_eq_some_iff_lookup? (h : t.names.Nodup) {name : String} {id : NameId} :
    t.query? name = some id ↔ t.lookup? id = some name := by
  rw [query?]
  constructor
  · intro hquery
    split at hquery
    · next hname =>
        cases hquery
        exact lookup?_idFor hname
    · cases hquery
  · intro hlookup
    have hname : name ∈ t.names := List.mem_of_getElem? hlookup
    rw [if_pos hname, lookup?_inj h (lookup?_idFor hname) hlookup]

/-- The numbers of names that were entered lead back to them. -/
theorem map_lookup?_idFor (t : NameTable) (names : List String) :
    (names.map (t.internAll names).idFor).map (t.internAll names).lookup? = names.map some := by
  rw [List.map_map]
  exact List.map_congr_left fun _ hname =>
    lookup?_idFor (mem_names_internAll.mpr (.inr hname))

theorem query?_intern_of_not_mem {name : String} (h : name ∉ t.names) (x : String) :
    (t.intern name).query? x = if name = x then some ⟨t.size⟩ else t.query? x := by
  by_cases hx : name = x
  · subst hx
    rw [if_pos rfl, query?, if_pos (mem_names_intern.mpr (.inr rfl)), idFor_intern_self, idFor,
      List.idxOf_eq_length h, size]
  · rw [if_neg hx, query?, query?]
    by_cases hmem : x ∈ t.names
    · rw [if_pos hmem, if_pos (mem_names_intern.mpr (.inl hmem)), idFor_intern_of_mem hmem]
    · have hnot : x ∉ (t.intern name).names := fun h =>
        (mem_names_intern.mp h).elim hmem (hx ∘ Eq.symm)
      rw [if_neg hmem, if_neg hnot]

theorem size_intern_of_not_mem {name : String} (h : name ∉ t.names) :
    (t.intern name).size = t.size + 1 := by
  simp [intern, h, size]

end NameTable

namespace NameStore

variable {s : NameStore} {t : NameTable} {α β : Type}

/-- Names and numbers lead to one another, and the numbers are those from 0 to the size. -/
structure Bijective (s : NameStore) : Prop where
  distinct : s.strings.toList.Nodup
  query?_iff : ∀ name id, s.query? name = some id ↔ s.lookup? id = some name
  dense : ∀ id, (∃ name, s.query? name = some id) ↔ id.index < s.size

/-- What keeps a table is a bijection. -/
theorem Keeps.bijective (h : s.Keeps t) : s.Bijective := by
  have hiff : ∀ name id, s.query? name = some id ↔ s.lookup? id = some name := by
    intro name id
    rw [h.query?_eq, h.lookup?_eq]
    exact NameTable.query?_eq_some_iff_lookup? h.nodup
  refine ⟨h.strings ▸ h.nodup, hiff, fun id => ?_⟩
  simp only [hiff, lookup?, Array.getElem?_eq_some_iff]
  exact ⟨fun ⟨_, hlt, _⟩ => hlt, fun hlt => ⟨_, hlt, rfl⟩⟩

/--
A program on a store serves for one on the table: it answers the same, and what it leaves keeps the
table that the other leaves. Tables only grow, and where the table stays as it is the store is not
touched.
-/
def Serves (p : StateM NameStore α) (q : StateM NameTable α) : Prop :=
  ∀ ⦃s : NameStore⦄ ⦃t : NameTable⦄, s.Keeps t →
    (p s).1 = (q t).1 ∧ (p s).2.Keeps (q t).2 ∧ t.size ≤ (q t).2.size ∧
      ((q t).2.size = t.size → (p s).2 = s)

theorem serves_pure (a : α) : Serves (pure a) (pure a) := fun _ _ h =>
  ⟨rfl, h, Nat.le_refl _, fun _ => rfl⟩

theorem bind_apply (p : StateM NameStore α) (f : α → StateM NameStore β) (s : NameStore) :
    (p >>= f) s = f (p s).1 (p s).2 := rfl

theorem pure_apply (a : α) (s : NameStore) : (pure a : StateM NameStore α) s = (a, s) := rfl

theorem Serves.bind {p : StateM NameStore α} {q : StateM NameTable α}
    {f : α → StateM NameStore β} {g : α → StateM NameTable β} (hp : Serves p q)
    (hf : ∀ a, Serves (f a) (g a)) : Serves (p >>= f) (q >>= g) := by
  intro s t h
  obtain ⟨hanswer, hkeeps, hgrows, hidle⟩ := hp h
  obtain ⟨hanswer', hkeeps', hgrows', hidle'⟩ := hf (q t).1 hkeeps
  have htable : (q >>= g) t = g (q t).1 (q t).2 := rfl
  rw [bind_apply, hanswer, htable]
  refine ⟨hanswer', hkeeps', Nat.le_trans hgrows hgrows', fun hsize => ?_⟩
  -- if the table does not grow in all, it grows in neither part
  rw [hidle' (by omega), hidle (by omega)]

/-- **Entering a name in both halves is entering it in the table.** -/
theorem serves_intern (name : String) : Serves (intern name) (NameTable.enter name) := by
  intro s t h
  rw [NameTable.enter_eq]
  by_cases hname : name ∈ t.names
  · have hold : s.ids[name]? = some (t.idFor name) := by
      rw [h.ids, NameTable.query?, if_pos hname]
    rw [intern_of_some hold, NameTable.intern_of_mem hname]
    exact ⟨rfl, h, Nat.le_refl _, fun _ => rfl⟩
  · have hnew : s.ids[name]? = none := by rw [h.ids, NameTable.query?, if_neg hname]
    have hsize : s.strings.size = t.size := h.size_eq
    have hnext : t.idFor name = ⟨t.size⟩ := by
      rw [NameTable.idFor, List.idxOf_eq_length hname, NameTable.size]
    rw [intern_of_none hnew, hsize, hnext, NameTable.size_intern_of_not_mem hname]
    refine ⟨rfl, ?_, Nat.le_succ _, fun hgrown => absurd hgrown (Nat.succ_ne_self _)⟩
    constructor
    · simp [NameTable.intern, hname, h.strings]
    · intro x
      simp only [Std.HashMap.getElem?_insert, beq_iff_eq, h.ids,
        NameTable.query?_intern_of_not_mem hname]
    · simp only [NameTable.intern, if_neg hname]
      exact h.codes
    · exact NameTable.nodup_names_intern h.nodup name

theorem serves_mapM (names : List String) :
    Serves (names.mapM intern) (NameTable.enterAll names) := by
  rw [NameTable.enterAll]
  induction names with
  | nil => exact serves_pure []
  | cons name names ih =>
      rw [List.mapM_cons, List.mapM_cons]
      exact (serves_intern name).bind fun _ => ih.bind fun _ => serves_pure _

/-! ## A catalogue and a circuit on a store -/

/-- Enter the vocabulary, and keep the numbers. -/
@[irreducible]
def newCatalogue : StateM NameStore Catalogue := do
  let kinds ← (DeviceKind.all.map DeviceKind.spelling).mapM intern
  let gateInputs ← (numberedLabels maxGateInputs).mapM intern
  let flipFlopInputs ← ["DATA", "CLK", "SET", "CLEAR"].mapM intern
  let flipFlopOutputs ← ["Q", "QBAR"].mapM intern
  return { kinds := kinds.zip DeviceKind.all, gateInputs, flipFlopInputs, flipFlopOutputs }

/-- Start a circuit with a catalogue of its own. -/
def newCircuit : StateM NameStore Circuit := do
  let catalogue ← newCatalogue
  return { devices := [], index := [], monitors := [], connectionCount := 0, catalogue }

theorem serves_newCatalogue : Serves newCatalogue Catalogue.enter := by
  rw [newCatalogue, Catalogue.enter]
  exact (serves_mapM _).bind fun _ => (serves_mapM _).bind fun _ => (serves_mapM _).bind fun _ =>
    (serves_mapM _).bind fun _ => serves_pure _

/--
**A catalogue on a store is the one that a circuit over the table has.** Where the vocabulary was
entered before, the store is not touched.
-/
theorem newCatalogue_spec (h : s.Keeps t) :
    (newCatalogue s).1 = (Circuit.start t).2.catalogue ∧
      (newCatalogue s).2.Keeps (t.internAll Catalogue.vocabulary) ∧
      ((∀ name ∈ Catalogue.vocabulary, name ∈ t.names) → (newCatalogue s).2 = s) := by
  have hstart : (Circuit.start t).1 = t.internAll Catalogue.vocabulary := by rw [Circuit.start]
  obtain ⟨hcatalogue, hkeeps, -, hidle⟩ := serves_newCatalogue h
  simp only [Circuit.start_eq_enter, hstart] at hcatalogue hkeeps hidle
  exact ⟨hcatalogue, hkeeps, fun hknown => hidle (by rw [NameTable.internAll_of_subset hknown])⟩

/-- **A circuit on a store is the one that is started over the table.** -/
theorem newCircuit_spec (h : s.Keeps t) :
    (newCircuit s).1 = (Circuit.start t).2 ∧ (newCircuit s).2 = (newCatalogue s).2 := by
  rw [newCircuit, bind_apply, pure_apply, (newCatalogue_spec h).1, Circuit.start, Circuit.empty]
  exact ⟨rfl, rfl⟩

end NameStore

/-! ## A scanner on a store -/

/--
What a scanner holds besides the store: a place in a text, what is still to be read there, and the
numbers of the keywords.
-/
structure StoreScanner where
  pos : Position
  rest : List Char
  keywords : List NameId

namespace StoreScanner

/-- A scanner before a text. The keywords are entered first, in their order. -/
@[irreducible]
def start (text : String) : StateM NameStore StoreScanner := do
  let keywords ← Keyword.spellings.mapM NameStore.intern
  return ⟨.start, text.toList, keywords⟩

/-- The number of a keyword. -/
def keywordId? (scanner : StoreScanner) (k : Keyword) : Option NameId :=
  scanner.keywords[Keyword.all.idxOf k]?

/-- The number of the word that a symbol is. A name is entered, a keyword was entered before. -/
def wordId? (scanner : StoreScanner) : Symbol → StateM NameStore (Option NameId)
  | .token ⟨.name text, _⟩ => some <$> NameStore.intern text
  | .token ⟨.keyword k, _⟩ => return scanner.keywordId? k
  | _ => return none

/-- Return the next symbol, and the number of the word that it is. -/
def next (scanner : StoreScanner) : StateM NameStore ((Symbol × Option NameId) × StoreScanner) := do
  let found := Scanner.scan none scanner.pos scanner.rest
  let id ← scanner.wordId? found.1
  return ((found.1, id), { scanner with pos := found.2.1, rest := found.2.2 })

/-- The scanner with a table instead of the store. -/
def onTable (scanner : StoreScanner) (t : NameTable) : Scanner := ⟨scanner.pos, scanner.rest, t⟩

/-- The numbers of the keywords lead to their spellings. -/
def Knows (scanner : StoreScanner) (t : NameTable) : Prop :=
  scanner.keywords.map t.lookup? = Keyword.spellings.map some

variable {scanner : StoreScanner} {s : NameStore} {t : NameTable}

theorem Knows.keywordId? (h : scanner.Knows t) (k : Keyword) :
    ∃ id, scanner.keywordId? k = some id ∧ t.lookup? id = some k.spelling := by
  have hplace : Keyword.spellings[Keyword.all.idxOf k]? = some k.spelling := by cases k <;> rfl
  have hmap := congrArg (·[Keyword.all.idxOf k]?) h
  simp only [List.getElem?_map, hplace, Option.map_some] at hmap
  exact Option.map_eq_some_iff.mp hmap

theorem Knows.mem (h : scanner.Knows t) (k : Keyword) : k.spelling ∈ t.names := by
  obtain ⟨id, -, hid⟩ := h.keywordId? k
  exact List.mem_of_getElem? hid

/--
**A scanner on a store starts as it does on the table.** Where the keywords were entered before, the
store is not touched.
-/
theorem start_spec (h : s.Keeps t) (text : String) :
    let started := start text s
    let left := t.internAll Keyword.spellings
    started.1.onTable left = Scanner.start t text ∧ started.2.Keeps left ∧ started.1.Knows left ∧
      ((∀ name ∈ Keyword.spellings, name ∈ t.names) → started.2 = s) := by
  intro started left
  have hserves : NameStore.Serves (start text) (do
      let keywords ← NameTable.enterAll Keyword.spellings
      return ⟨.start, text.toList, keywords⟩) := by
    rw [start]
    exact (NameStore.serves_mapM _).bind fun _ => NameStore.serves_pure _
  obtain ⟨hstarted, hkeeps, -, hidle⟩ := hserves h
  rw [NameTable.enterAll_bind] at hstarted hkeeps hidle
  have hstarted' : started.1 = ⟨.start, text.toList, Keyword.spellings.map left.idFor⟩ := hstarted
  refine ⟨by rw [hstarted']; rfl, hkeeps, ?_, fun hknown => ?_⟩
  · rw [Knows, hstarted']
    exact NameTable.map_lookup?_idFor t Keyword.spellings
  · exact hidle (congrArg NameTable.size (NameTable.internAll_of_subset hknown))

/-- The word that a symbol is has the number that it is given, and is in the table afterwards. -/
theorem wordId?_spec (h : s.Keeps t) (hknows : scanner.Knows t) (symbol : Symbol) :
    let numbered := scanner.wordId? symbol s
    let left := t.internAll symbol.word?.toList
    symbol.name?.elim t t.intern = left ∧ numbered.2.Keeps left ∧
      numbered.1.toList.map left.lookup? = symbol.word?.toList.map some := by
  cases symbol with
  | openComment | eof => exact ⟨rfl, h, rfl⟩
  | token token =>
      obtain ⟨lexeme, pos⟩ := token
      cases lexeme with
      | comma | semicolon | equals | dash | dot | number => exact ⟨rfl, h, rfl⟩
      | keyword k =>
          obtain ⟨id, hid, hlookup⟩ := hknows.keywordId? k
          have hleft : t.internAll [k.spelling] = t := NameTable.intern_of_mem (hknows.mem k)
          have hnumbered : scanner.wordId? (.token ⟨.keyword k, pos⟩) s = (some id, s) := by
            rw [← hid]
            rfl
          simp only [Symbol.word?, Option.toList_some, hleft, hnumbered]
          exact ⟨rfl, h, by rw [List.map_singleton, List.map_singleton, hlookup]⟩
      | name text =>
          obtain ⟨hid, hkeeps, -, -⟩ := NameStore.serves_intern text h
          rw [NameTable.enter_eq] at hid hkeeps
          have hnumbered : scanner.wordId? (.token ⟨.name text, pos⟩) s =
              (some (t.idFor text), (NameStore.intern text s).2) := by
            rw [← show (NameStore.intern text s).1 = t.idFor text from hid]
            rfl
          have hlookup : (t.intern text).lookup? (t.idFor text) = some text := by
            rw [← NameTable.idFor_intern_self]
            exact NameTable.lookup?_idFor (NameTable.mem_names_intern.mpr (.inr rfl))
          simp only [Symbol.word?, Option.toList_some, hnumbered]
          exact ⟨rfl, hkeeps, congrArg ([·]) hlookup⟩

/--
**A scanner on a store returns the symbol that it returns on the table**, and the number of a word
leads back to it.
-/
theorem next_spec (h : s.Keeps t) (hknows : scanner.Knows t) :
    let returned := scanner.next s
    let expected := (scanner.onTable t).next
    returned.1.1.1 = expected.1 ∧ returned.1.2.onTable expected.2.names = expected.2 ∧
      returned.1.2.keywords = scanner.keywords ∧
      expected.2.names = t.internAll expected.1.word?.toList ∧
      returned.2.Keeps expected.2.names ∧
      returned.1.1.2.toList.map expected.2.names.lookup? = expected.1.word?.toList.map some := by
  intro returned expected
  obtain ⟨hnames, hkeeps, hids⟩ :=
    wordId?_spec h hknows (Scanner.scan none scanner.pos scanner.rest).1
  have hexpected : expected.2.names = t.internAll expected.1.word?.toList := hnames
  rw [hexpected]
  exact ⟨rfl, congrArg (Scanner.mk _ _) hexpected.symm, rfl, rfl, hkeeps, hids⟩

end StoreScanner

end LogicNet
