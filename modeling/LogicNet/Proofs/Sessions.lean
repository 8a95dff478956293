import LogicNet.Proofs.NameStore

/-!
# Sessions on a store of names

One store of names is shared by whoever needs names: a catalogue enters the vocabulary, a scanner
the keywords and then the names that it meets in a text, and anyone may enter a name, ask for one or
take error codes. A session is a store and perhaps a scanner on it, and a run is any list of
requests, in whatever order.

The step of a session is `Session.sound_answer`: what was kept is kept, and the numbers that are
handed out lead to their names. `Session.sound_run` is the run, and `Session.ranges_run` tells the
codes that it gives away. `Session.growing_bijection` puts them together. Through all of this names
and numbers stay a bijection that only grows.
-/

namespace LogicNet

/-! ## Requests and answers -/

/-- What can be asked of a store, directly or by way of those that share it. -/
inductive Request where
  | intern (name : String)
  | query (name : String)
  | lookup (id : NameId)
  | codes (count : USize)
  | catalogue
  | circuit
  /-- Put a scanner before a text. It takes the place of the scanner that was there. -/
  | scanner (text : String)
  /-- Ask the scanner for a symbol. -/
  | symbol

/-- What a request is answered. -/
inductive Answer where
  | number (id : NameId)
  | found (id : Option NameId)
  | name (name : Option String)
  | codes (range : CodeRange)
  | catalogue (c : Catalogue)
  | circuit (c : Circuit)
  | keywords (ids : List NameId)
  | symbol (symbol : Symbol) (id : Option NameId)
  /-- There is no scanner to be asked. -/
  | nothing

/-- All numbers in a catalogue. -/
def Catalogue.ids (c : Catalogue) : List NameId :=
  c.kinds.map Prod.fst ++ c.gateInputs ++ c.flipFlopInputs ++ c.flipFlopOutputs

namespace Answer

/-- The numbers that are handed out with an answer. -/
def ids : Answer → List NameId
  | number id => [id]
  | found id => id.toList
  | catalogue c => c.ids
  | circuit c => c.catalogue.ids
  | keywords ids => ids
  | symbol _ id => id.toList
  | name _ | codes _ | nothing => []

/-- The codes that are given away with an answer. -/
def range? : Answer → Option CodeRange
  | codes range => some range
  | _ => none

end Answer

namespace Request

/-- How many codes are asked for. -/
def codes? : Request → Option USize
  | codes count => some count
  | _ => none

/-- How many codes are asked for, as a number without bounds. -/
def count (request : Request) : Nat := request.codes?.elim 0 USize.toNat

/-- How many codes are asked for in all. -/
def total (requests : List Request) : Nat := (requests.map count).sum

theorem total_eq (requests : List Request) :
    total requests = ((requests.filterMap codes?).map USize.toNat).sum := by
  induction requests with
  | nil => rfl
  | cons request requests ih =>
      have htotal : total (request :: requests) = request.count + total requests := rfl
      rw [htotal, ih, count, List.filterMap_cons]
      cases request.codes? with
      | none => exact Nat.zero_add _
      | some count => rfl

/-- The names that the numbers in an answer stand for, one after the other. -/
def words : Request → Answer → List String
  | intern name, _ => [name]
  | query name, .found id => id.toList.map fun _ => name
  | catalogue, _ | circuit, _ => Catalogue.vocabulary
  | scanner _, _ => Keyword.spellings
  | symbol, .symbol found _ => found.word?.toList
  | _, _ => []

end Request

/-- A store, and the scanner on it. -/
structure Session where
  store : NameStore
  scanner : Option StoreScanner

namespace Session

/-- A session on a store without names. -/
def fresh : Session := ⟨.empty, none⟩

/-- Answer a request. -/
def answer (s : Session) : Request → Answer × Session
  | .intern name =>
      let made := NameStore.intern name s.store
      (.number made.1, { s with store := made.2 })
  | .query name => (.found (s.store.query? name), s)
  | .lookup id => (.name (s.store.lookup? id), s)
  | .codes count =>
      let made := NameStore.reserveCodes count s.store
      (.codes made.1, { s with store := made.2 })
  | .catalogue =>
      let made := NameStore.newCatalogue s.store
      (.catalogue made.1, { s with store := made.2 })
  | .circuit =>
      let made := NameStore.newCircuit s.store
      (.circuit made.1, { s with store := made.2 })
  | .scanner text =>
      let made := StoreScanner.start text s.store
      (.keywords made.1.keywords, ⟨made.2, some made.1⟩)
  | .symbol =>
      match s.scanner with
      | none => (.nothing, s)
      | some scanner =>
          let made := scanner.next s.store
          (.symbol made.1.1.1 made.1.1.2, ⟨made.2, some made.1.2⟩)

/-- Answer requests, one after the other. -/
def run (s : Session) : List Request → List Answer × Session
  | [] => ([], s)
  | request :: requests =>
      let first := s.answer request
      let others := first.2.run requests
      (first.1 :: others.1, others.2)

/-- The names that the numbers handed out in a run stand for, with repetitions. -/
def words (s : Session) : List Request → List String
  | [] => []
  | request :: requests =>
      let first := s.answer request
      request.words first.1 ++ first.2.words requests

/-- The codes that are given away in a run. -/
def ranges (s : Session) (requests : List Request) : List CodeRange :=
  (s.run requests).1.filterMap Answer.range?

theorem run_append (s : Session) (as bs : List Request) :
    (s.run (as ++ bs)).2 = ((s.run as).2.run bs).2 := by
  induction as generalizing s with
  | nil => rfl
  | cons a as ih => exact ih _

end Session

/-! ## What a session keeps -/

/-- Where numbers lead to names, they do so in whatever leads on as it led before. -/
theorem map_eq_of_imp {before after : NameId → Option String} {ids : List NameId}
    {names : List String} (hkept : ∀ id name, before id = some name → after id = some name)
    (h : ids.map before = names.map some) : ids.map after = names.map some := by
  rw [← h]
  refine List.map_congr_left fun id hid => ?_
  obtain ⟨name, -, hname⟩ := List.mem_map.mp (h ▸ List.mem_map_of_mem hid)
  rw [← hname]
  exact hkept id name hname.symm

namespace NameTable

theorem reserveCodes_zero (t : NameTable) : t.reserveCodes 0 = t := rfl

theorem codes_internAll (t : NameTable) (names : List String) :
    (t.internAll names).codes = t.codes := by
  induction names generalizing t with
  | nil => rfl
  | cons name names ih =>
      have hintern : (t.intern name).codes = t.codes := by
        unfold intern
        split <;> rfl
      exact (ih (t.intern name)).trans hintern

theorem internAll_reserveCodes (t : NameTable) (names : List String) (codes : Nat) :
    (t.reserveCodes codes).internAll names = (t.internAll names).reserveCodes codes := by
  induction names generalizing t with
  | nil => rfl
  | cons name names ih =>
      have hintern : (t.reserveCodes codes).intern name = (t.intern name).reserveCodes codes := by
        unfold intern reserveCodes
        split <;> rfl
      calc (t.reserveCodes codes).internAll (name :: names)
          = ((t.reserveCodes codes).intern name).internAll names := rfl
        _ = ((t.intern name).internAll names).reserveCodes codes := by rw [hintern, ih]

/-- Names are entered and codes are taken independently. -/
theorem grown_append (t : NameTable) (as bs : List String) (m n : Nat) :
    (((t.internAll as).reserveCodes m).internAll bs).reserveCodes n =
      (t.internAll (as ++ bs)).reserveCodes (m + n) := by
  rw [internAll_reserveCodes, internAll_append, reserveCodes, reserveCodes, reserveCodes,
    Nat.add_assoc]

end NameTable

/-- The numbers in a catalogue are those of the vocabulary, name by name. -/
theorem Catalogue.ids_ofNames (t : NameTable) : (ofNames t).ids = vocabulary.map t.idFor := by
  simp only [ids, ofNames, vocabulary, List.map_append, List.map_map]
  rfl

/-- The numbers in the catalogue of a circuit that is started lead to the vocabulary. -/
theorem Circuit.map_lookup?_start (t : NameTable) :
    (start t).2.catalogue.ids.map (t.internAll Catalogue.vocabulary).lookup? =
      Catalogue.vocabulary.map some := by
  simp only [start, empty, Catalogue.ids_ofNames]
  exact NameTable.map_lookup?_idFor t Catalogue.vocabulary

/-- A scanner that knows the keywords knows them when more is entered. -/
theorem StoreScanner.Knows.entered {scanner : StoreScanner} {t : NameTable}
    (h : scanner.Knows t) (more : List String) : scanner.Knows (t.internAll more) :=
  map_eq_of_imp (fun _ _ hid => NameTable.lookup?_internAll hid more) h

namespace Session

variable {s : Session} {t : NameTable}

/-- A session keeps a table, and its scanner knows the keywords there. -/
structure Sound (s : Session) (t : NameTable) : Prop where
  keeps : s.store.Keeps t
  knows : ∀ scanner ∈ s.scanner, scanner.Knows t

theorem sound_fresh : fresh.Sound .empty where
  keeps := NameStore.keeps_empty
  knows := fun _ h => nomatch h

theorem Sound.entered (h : s.Sound t) {more : List String} {store : NameStore}
    (hkeeps : store.Keeps (t.internAll more)) : Sound { s with store } (t.internAll more) where
  keeps := hkeeps
  knows := fun scanner hscanner => (h.knows scanner hscanner).entered more

/-- Where a request asks for no codes, only names are entered. -/
theorem sound_of_entered {request : Request} {a : Answer × Session} (hcodes : request.codes? = none)
    (hsound : a.2.Sound (t.internAll (request.words a.1)))
    (hids : a.1.ids.map (t.internAll (request.words a.1)).lookup? = (request.words a.1).map some) :
    let left := (t.internAll (request.words a.1)).reserveCodes request.count
    a.2.Sound left ∧ a.1.ids.map left.lookup? = (request.words a.1).map some := by
  rw [Request.count, hcodes, Option.elim_none, NameTable.reserveCodes_zero]
  exact ⟨hsound, hids⟩

/--
**What a request does to a session**: the names that it was answered with are in the table, codes
are taken if it asked for some, and each number that is handed out leads to its name.
-/
theorem sound_answer (h : s.Sound t) (request : Request) :
    let a := s.answer request
    let left := (t.internAll (request.words a.1)).reserveCodes request.count
    a.2.Sound left ∧ a.1.ids.map left.lookup? = (request.words a.1).map some := by
  cases request with
  | intern name =>
      obtain ⟨hid, hkeeps, -, -⟩ := NameStore.serves_intern name h.keeps
      rw [NameTable.enter_eq] at hid hkeeps
      refine sound_of_entered rfl (h.entered hkeeps) ?_
      simp only [answer, Request.words, Answer.ids]
      rw [hid, ← NameTable.idFor_intern_self]
      exact NameTable.map_lookup?_idFor t [name]
  | query name =>
      have hanswer : s.answer (.query name) = (.found (t.query? name), s) := by
        rw [answer, h.keeps.query?_eq]
      rw [hanswer]
      cases hfound : t.query? name with
      | none => exact ⟨h, rfl⟩
      | some id =>
          -- a name that is found was entered before
          have hlookup := (NameTable.query?_eq_some_iff_lookup? h.keeps.nodup).mp hfound
          have hleft : t.internAll [name] = t :=
            NameTable.intern_of_mem (List.mem_of_getElem? hlookup)
          refine sound_of_entered rfl ?_ ?_
          · simp only [Request.words, Option.toList_some, List.map_singleton, hleft]
            exact h
          · simp only [Request.words, Answer.ids, Option.toList_some, List.map_singleton, hleft,
              hlookup]
  | lookup id => exact ⟨h, rfl⟩
  | codes count => exact ⟨⟨h.keeps.reserveCodes count, h.knows⟩, rfl⟩
  | catalogue =>
      obtain ⟨hcatalogue, hkeeps, -⟩ := NameStore.newCatalogue_spec h.keeps
      refine sound_of_entered rfl (h.entered hkeeps) ?_
      simp only [answer, Request.words, Answer.ids, hcatalogue]
      exact Circuit.map_lookup?_start t
  | circuit =>
      obtain ⟨hcircuit, hstore⟩ := NameStore.newCircuit_spec h.keeps
      have hkeeps := (NameStore.newCatalogue_spec h.keeps).2.1
      rw [← hstore] at hkeeps
      refine sound_of_entered rfl (h.entered hkeeps) ?_
      simp only [answer, Request.words, Answer.ids, hcircuit]
      exact Circuit.map_lookup?_start t
  | scanner text =>
      obtain ⟨-, hkeeps, hknows, -⟩ := StoreScanner.start_spec h.keeps text
      refine sound_of_entered rfl ⟨hkeeps, fun scanner hscanner => ?_⟩ hknows
      obtain rfl := Option.some.inj hscanner
      exact hknows
  | symbol =>
      cases hscanner : s.scanner with
      | none =>
          simp only [answer, hscanner]
          exact ⟨h, rfl⟩
      | some scanner =>
          have hknows : scanner.Knows t := h.knows scanner hscanner
          obtain ⟨hsymbol, -, hkeywords, hnames, hkeeps, hids⟩ :=
            StoreScanner.next_spec h.keeps hknows
          rw [hnames, ← hsymbol] at hkeeps hids
          have hanswer : s.answer .symbol =
              (.symbol (scanner.next s.store).1.1.1 (scanner.next s.store).1.1.2,
                ⟨(scanner.next s.store).2, some (scanner.next s.store).1.2⟩) := by
            simp only [answer, hscanner]
          rw [hanswer]
          refine sound_of_entered rfl ⟨hkeeps, fun other hother => ?_⟩ hids
          obtain rfl := Option.some.inj hother
          rw [StoreScanner.Knows, hkeywords]
          exact hknows.entered _

/-- **What a run does to a session.** -/
theorem sound_run (h : s.Sound t) (requests : List Request) :
    (s.run requests).2.Sound
      ((t.internAll (s.words requests)).reserveCodes (Request.total requests)) := by
  induction requests generalizing s t with
  | nil => exact h
  | cons request requests ih =>
      have hrest := ih (sound_answer h request).1
      rw [NameTable.grown_append] at hrest
      exact hrest

/-- A number that is in use keeps its name through a run. -/
theorem lookup?_run (h : s.Sound t) {id : NameId} {name : String}
    (hid : s.store.lookup? id = some name) (requests : List Request) :
    (s.run requests).2.store.lookup? id = some name := by
  rw [h.keeps.lookup?_eq] at hid
  rw [(sound_run h requests).keeps.lookup?_eq]
  exact NameTable.lookup?_internAll hid _

/-- The numbers that are handed out along a run lead to their names when it ends. -/
theorem map_lookup?_run (h : s.Sound t) (earlier : List Request) (request : Request)
    (later : List Request) :
    let a := ((s.run earlier).2.answer request).1
    a.ids.map (s.run (earlier ++ request :: later)).2.store.lookup? =
      (request.words a).map some := by
  obtain ⟨hsound, hids⟩ := sound_answer (sound_run h earlier) request
  rw [← funext hsound.keeps.lookup?_eq] at hids
  rw [run_append]
  exact map_eq_of_imp (fun _ _ hid => lookup?_run hsound hid later) hids

/-- Names that a request enters whatever it is answered are among the names of a run. -/
theorem mem_words {requests : List Request} {request : Request} (h : request ∈ requests)
    {names : List String} (hnames : ∀ a, request.words a = names) {name : String}
    (hname : name ∈ names) : name ∈ s.words requests := by
  induction requests generalizing s with
  | nil => cases h
  | cons first requests ih =>
      rw [words]
      rcases List.mem_cons.mp h with rfl | h
      · exact List.mem_append_left _ (by rwa [hnames])
      · exact List.mem_append_right _ (ih h)

end Session

/-! ## Codes -/

namespace CodeRange

/-- Whether a code is among those that are given away. -/
def Has (r : CodeRange) (code : USize) : Prop := r.first ≤ code ∧ code < r.stop

/-- Ranges of so many codes, one behind the other. -/
def oneByOne : USize → List USize → List CodeRange
  | _, [] => []
  | first, count :: counts => ⟨first, first + count⟩ :: oneByOne (first + count) counts

/-- What ranges have to be that are given away for counts. -/
structure Consecutive (ranges : List CodeRange) (counts : List USize) : Prop where
  /-- The first starts at 0, and each of the others where the one before it stops. -/
  chained : (⟨0, 0⟩ :: ranges).IsChain fun r next => next.first = r.stop
  /-- Each has as many codes as were asked for. -/
  sizes : List.Forall₂ (fun r count => r.stop.toNat = r.first.toNat + count.toNat) ranges counts
  /-- No code is given away twice. -/
  disjoint : ranges.Pairwise fun r later => ∀ code, r.Has code → ¬ later.Has code

theorem chained_oneByOne (first start : USize) (counts : List USize) :
    (⟨start, first⟩ :: oneByOne first counts).IsChain fun r next => next.first = r.stop := by
  induction counts generalizing first start with
  | nil => exact List.IsChain.singleton _
  | cons count counts ih => exact List.IsChain.cons_cons rfl (ih _ _)

section

variable {first : USize} {counts : List USize}

/-- Where no word is too small, the first range stops where the numbers say. -/
theorem toNat_add_of_fits {count : USize}
    (hfits : first.toNat + ((count :: counts).map USize.toNat).sum < USize.size) :
    (first + count).toNat = first.toNat + count.toNat := by
  rw [USize.toNat_add]
  rw [List.map_cons, List.sum_cons] at hfits
  exact Nat.mod_eq_of_lt (by unfold USize.size at hfits; omega)

theorem sizes_oneByOne (hfits : first.toNat + (counts.map USize.toNat).sum < USize.size) :
    List.Forall₂ (fun r count => r.stop.toNat = r.first.toNat + count.toNat)
      (oneByOne first counts) counts := by
  induction counts generalizing first with
  | nil => exact .nil
  | cons count counts ih =>
      have hstop := toNat_add_of_fits hfits
      refine .cons hstop (ih ?_)
      rw [hstop]
      rw [List.map_cons, List.sum_cons] at hfits
      omega

/-- All ranges start at the first code or behind it. -/
theorem first_le_oneByOne (hfits : first.toNat + (counts.map USize.toNat).sum < USize.size) :
    ∀ r ∈ oneByOne first counts, first ≤ r.first := by
  induction counts generalizing first with
  | nil => exact fun _ hr => nomatch hr
  | cons count counts ih =>
      have hstop := toNat_add_of_fits hfits
      rw [List.map_cons, List.sum_cons] at hfits
      intro r hr
      rcases List.mem_cons.mp hr with rfl | hr
      · exact USize.le_refl _
      · have hle := ih (by rw [hstop]; omega) r hr
        rw [USize.le_iff_toNat_le] at hle ⊢
        omega

theorem disjoint_oneByOne (hfits : first.toNat + (counts.map USize.toNat).sum < USize.size) :
    (oneByOne first counts).Pairwise fun r later => ∀ code, r.Has code → ¬ later.Has code := by
  induction counts generalizing first with
  | nil => exact .nil
  | cons count counts ih =>
      have hstop := toNat_add_of_fits hfits
      rw [List.map_cons, List.sum_cons] at hfits
      have hrest : (first + count).toNat + (counts.map USize.toNat).sum < USize.size := by
        rw [hstop]
        omega
      refine .cons (fun later hlater code hcode hother => ?_) (ih hrest)
      -- a code cannot be before the place where the first range stops and behind it
      have hle := first_le_oneByOne hrest later hlater
      exact USize.not_le.mpr hcode.2 (USize.le_trans hle hother.1)

end

/-- **Ranges that are made one by one are consecutive**, if a word can hold their total. -/
theorem consecutive_oneByOne {counts : List USize}
    (hfits : (counts.map USize.toNat).sum < USize.size) :
    Consecutive (oneByOne 0 counts) counts := by
  have hfits' : (0 : USize).toNat + (counts.map USize.toNat).sum < USize.size := by
    rwa [USize.toNat_zero, Nat.zero_add]
  exact ⟨chained_oneByOne 0 0 counts, sizes_oneByOne hfits', disjoint_oneByOne hfits'⟩

end CodeRange

namespace Session

variable {s : Session} {t : NameTable}

/-- Codes are taken by requests for codes only. -/
theorem codes_answer (h : s.Sound t) (request : Request) :
    (s.answer request).2.store.codes = s.store.codes + request.codes?.getD 0 := by
  have hcount : USize.ofNat request.count = request.codes?.getD 0 := by
    rw [Request.count]
    cases request.codes? with
    | none => rfl
    | some count => exact USize.ofNat_toNat
  rw [(sound_answer h request).1.keeps.codes, h.keeps.codes, NameTable.reserveCodes,
    NameTable.codes_internAll, USize.ofNat_add, hcount]

theorem range?_answer (s : Session) (request : Request) :
    (s.answer request).1.range? =
      request.codes?.map fun count => ⟨s.store.codes, s.store.codes + count⟩ := by
  cases request with
  | codes count => rfl
  | intern | query | lookup | catalogue | circuit | scanner => rfl
  | symbol =>
      simp only [answer]
      cases s.scanner <;> rfl

/-- **The codes that a run gives away are told by the counts alone.** -/
theorem ranges_run (h : s.Sound t) (requests : List Request) :
    s.ranges requests =
      CodeRange.oneByOne s.store.codes (requests.filterMap Request.codes?) := by
  induction requests generalizing s t with
  | nil => rfl
  | cons request requests ih =>
      have hrest := ih (sound_answer h request).1
      rw [codes_answer h request, ranges] at hrest
      rw [ranges, run, List.filterMap_cons, List.filterMap_cons, range?_answer, hrest]
      cases request.codes? with
      | none => rw [Option.map_none, Option.getD_none, USize.add_zero]
      | some count => rfl

/-! ## Names, numbers and codes after any requests -/

/--
**Names and numbers are a bijection that only grows**, whatever is asked of a store that was empty,
and in whatever order. The store keeps the table that comes of entering the names one after the
other and of taking the codes. A number that was handed out leads to its name for ever, and so does
every number that was in use before. Who enters the vocabulary or the keywords again adds nothing.
The codes that are given away are told by the counts that were asked for and by nothing else, and if
a word can hold their total, they are given away from 0 on, without gaps and once each.
-/
theorem growing_bijection (requests : List Request) :
    let last := (fresh.run requests).2
    let counts := requests.filterMap Request.codes?
    last.store.Keeps ((NameTable.empty.internAll (fresh.words requests)).reserveCodes
        (Request.total requests)) ∧
      last.store.Bijective ∧
      (∀ earlier request later, requests = earlier ++ request :: later →
        let a := ((fresh.run earlier).2.answer request).1
        a.ids.map last.store.lookup? = (request.words a).map some) ∧
      (∀ earlier later, requests = earlier ++ later → ∀ id name,
        (fresh.run earlier).2.store.lookup? id = some name →
          last.store.lookup? id = some name) ∧
      (.catalogue ∈ requests ∨ .circuit ∈ requests →
        (last.answer .catalogue).2.store = last.store ∧
          (last.answer .circuit).2.store = last.store) ∧
      (∀ text other, .scanner text ∈ requests →
        (last.answer (.scanner other)).2.store = last.store) ∧
      (∀ others, others.filterMap Request.codes? = counts →
        fresh.ranges others = fresh.ranges requests) ∧
      (Request.total requests < USize.size →
        CodeRange.Consecutive (fresh.ranges requests) counts) := by
  intro last counts
  have hkeeps := (sound_run sound_fresh requests).keeps
  -- what a request enters is in the table at the end
  have hentered : ∀ request ∈ requests, ∀ names : List String,
      (∀ a, request.words a = names) → ∀ name ∈ names,
        name ∈ (NameTable.empty.internAll (fresh.words requests)).names :=
    fun _ hrequest _ hnames _ hname =>
      NameTable.mem_names_internAll.mpr (.inr (mem_words hrequest hnames hname))
  refine ⟨hkeeps, hkeeps.bijective, ?_, ?_, ?_, ?_, ?_, ?_⟩
  · rintro earlier request later rfl
    exact map_lookup?_run sound_fresh earlier request later
  · rintro earlier later rfl id name hid
    have hlast : last = ((fresh.run earlier).2.run later).2 := run_append fresh earlier later
    rw [hlast]
    exact lookup?_run (sound_run sound_fresh earlier) hid later
  · intro hmade
    have hvocabulary := hmade.elim (hentered _ · Catalogue.vocabulary fun _ => rfl)
      (hentered _ · Catalogue.vocabulary fun _ => rfl)
    have hidle := (NameStore.newCatalogue_spec hkeeps).2.2 hvocabulary
    exact ⟨hidle, (NameStore.newCircuit_spec hkeeps).2.trans hidle⟩
  · intro text other hmade
    exact (StoreScanner.start_spec hkeeps other).2.2.2
      (hentered _ hmade Keyword.spellings fun _ => rfl)
  · intro others hcounts
    rw [ranges_run sound_fresh, ranges_run sound_fresh, hcounts]
  · intro hfits
    rw [Request.total_eq] at hfits
    rw [ranges_run sound_fresh]
    exact CodeRange.consecutive_oneByOne hfits

/-- A name of the vocabulary is entered before a circuit is started, and codes are taken twice. -/
theorem growing_bijection_shared_store :
    let requests : List Request :=
      [.intern "I1", .codes 5, .circuit, .scanner "DEVICES A", .symbol, .symbol, .codes 3]
    let last := (fresh.run requests).2
    Request.total requests < USize.size ∧
      (last.answer .circuit).2.store = last.store ∧
      (last.answer (.scanner "END")).2.store = last.store ∧
      fresh.ranges requests = [⟨0, 5⟩, ⟨5, 8⟩] ∧
      CodeRange.Consecutive [⟨0, 5⟩, ⟨5, 8⟩] [5, 3] := by
  intro requests last
  have hfits : Request.total requests < USize.size := by
    have hsize := USize.le_size
    have hfive : (5 : USize).toNat ≤ 5 := Nat.mod_le ..
    have hthree : (3 : USize).toNat ≤ 3 := Nat.mod_le ..
    have htotal : Request.total requests = (5 : USize).toNat + ((3 : USize).toNat + 0) :=
      Request.total_eq requests
    omega
  have hranges : fresh.ranges requests = [⟨0, 5⟩, ⟨5, 8⟩] := by
    have hfirst : (0 : USize) + 5 = 5 := USize.zero_add 5
    have hsecond : (5 : USize) + 3 = 8 := (USize.ofNat_add 5 3).symm
    have hcounts : requests.filterMap Request.codes? = [5, 3] := rfl
    have hstart : fresh.store.codes = 0 := rfl
    rw [ranges_run sound_fresh, hcounts, hstart]
    simp only [CodeRange.oneByOne, hfirst, hsecond]
  obtain ⟨-, -, -, -, hvocabulary, hkeywords, -, hcodes⟩ := growing_bijection requests
  refine ⟨hfits, (hvocabulary (.inr (by simp [requests]))).2,
    hkeywords "DEVICES A" "END" (by simp [requests]), hranges, ?_⟩
  exact hranges ▸ hcodes hfits

end Session

end LogicNet
