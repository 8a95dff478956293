import Mathlib
import LogicNet.Proofs.InPlace
import LogicNet.Proofs.Rejection
import LogicNet.Proofs.RoundTrip

/-!
# The device table

Which devices there are is a table. It has a row for every kind and every qualifier that the kind
takes, and a row tells the labels of the pins. Here the table is written down without a word about
catalogues, and a circuit is shown to answer by it, over any table of names and whatever it was
asked before (`Circuit.answer_device_by_table`).

Two things stand between the table and a circuit. The catalogue enters its vocabulary name by name
and keeps the numbers that it is answered. These need not follow one another, for some of the names
may have been entered already, in any order. And a qualifier is a machine word. The inputs of a gate
are cut out of the catalogue at that word, read without a sign, so a word let through by mistake
would cut beyond the end.
-/

namespace LogicNet

/-! ## The vocabulary, name by name -/

namespace NameTable

variable {t : NameTable} {names : List String}

/-- Enter a name, and answer its number. -/
def enter (name : String) : StateM NameTable NameId := do
  let t ← get
  match t.query? name with
  | some id => return id
  | none =>
      set { t with names := t.names ++ [name] }
      return ⟨t.size⟩

/-- Enter several names, and answer their numbers. -/
def enterAll (names : List String) : StateM NameTable (List NameId) := names.mapM enter

/-- What is answered is the number that was foreseen for the name. -/
theorem enter_eq (name : String) (t : NameTable) :
    enter name t = (t.idFor name, t.intern name) := by
  have henter : enter name t = match t.query? name with
      | some id => (id, t)
      | none => (⟨t.size⟩, { t with names := t.names ++ [name] }) := by
    simp only [enter, bind, StateT.bind, get, getThe, MonadStateOf.get, StateT.get, pure]
    cases t.query? name <;> rfl
  rw [henter, query?]
  by_cases hname : name ∈ t.names
  · rw [if_pos hname, intern_of_mem hname]
  · rw [if_neg hname, intern, if_neg hname, idFor, List.idxOf_eq_length hname, size]

theorem enterAll_eq (names : List String) (t : NameTable) :
    enterAll names t = (names.map (t.internAll names).idFor, t.internAll names) := by
  induction names generalizing t with
  | nil => rfl
  | cons name names ih =>
      have hkept : ((t.intern name).internAll names).idFor name = t.idFor name := by
        rw [idFor_internAll_of_mem (mem_names_intern.mpr (.inr rfl)), idFor_intern_self]
      have hstep : enterAll (name :: names) t =
          ((enter name t).1 :: (enterAll names (enter name t).2).1,
            (enterAll names (enter name t).2).2) := by
        rw [enterAll, List.mapM_cons]
        rfl
      rw [hstep, enter_eq, ih, List.map_cons, ← hkept]
      rfl

theorem enterAll_bind {α : Type} (names : List String) (f : List NameId → StateM NameTable α)
    (t : NameTable) :
    (enterAll names >>= f) t = f (names.map (t.internAll names).idFor) (t.internAll names) := by
  simp only [bind, StateT.bind, enterAll_eq]

theorem internAll_append (t : NameTable) (names more : List String) :
    t.internAll (names ++ more) = (t.internAll names).internAll more := List.foldl_append

/-- The numbers that were answered are still the numbers of the names when more are entered. -/
theorem map_idFor_internAll (t : NameTable) (names more : List String) :
    names.map ((t.internAll names).internAll more).idFor = names.map (t.internAll names).idFor :=
  List.map_congr_left fun _ hname =>
    idFor_internAll_of_mem (mem_names_internAll.mpr (.inr hname))

end NameTable

/-- The labels of numbered inputs, from the first to the last. -/
def numberedLabels (count : Nat) : List String :=
  (List.range count).map fun i => "I" ++ toString (i + 1)

theorem numberedLabels_maxGateInputs : numberedLabels maxGateInputs = gateInputLabels := by
  cbv

theorem take_gateInputLabels {count : Nat} (h : count ≤ maxGateInputs) :
    gateInputLabels.take count = numberedLabels count := by
  rw [← numberedLabels_maxGateInputs, numberedLabels, numberedLabels, ← List.map_take,
    List.take_range, Nat.min_eq_left h]

/-- Enter the vocabulary, and keep the numbers. -/
def Catalogue.enter : StateM NameTable Catalogue := do
  let kinds ← NameTable.enterAll (DeviceKind.all.map DeviceKind.spelling)
  let gateInputs ← NameTable.enterAll (numberedLabels maxGateInputs)
  let flipFlopInputs ← NameTable.enterAll ["DATA", "CLK", "SET", "CLEAR"]
  let flipFlopOutputs ← NameTable.enterAll ["Q", "QBAR"]
  return { kinds := kinds.zip DeviceKind.all, gateInputs, flipFlopInputs, flipFlopOutputs }

/-- **A circuit is started with the catalogue that comes of entering name by name.** -/
theorem Circuit.start_eq_enter (names : NameTable) :
    Catalogue.enter names = ((start names).2.catalogue, (start names).1) := by
  let t₁ := names.internAll (DeviceKind.all.map DeviceKind.spelling)
  let t₂ := t₁.internAll gateInputLabels
  let t₃ := t₂.internAll flipFlopInputLabels
  let t₄ := t₃.internAll flipFlopOutputLabels
  have hrun : Catalogue.enter names =
      ({ kinds := ((DeviceKind.all.map DeviceKind.spelling).map t₁.idFor).zip DeviceKind.all
         gateInputs := gateInputLabels.map t₂.idFor
         flipFlopInputs := flipFlopInputLabels.map t₃.idFor
         flipFlopOutputs := flipFlopOutputLabels.map t₄.idFor }, t₄) := by
    rw [Catalogue.enter, numberedLabels_maxGateInputs, NameTable.enterAll_bind,
      NameTable.enterAll_bind, NameTable.enterAll_bind, NameTable.enterAll_bind]
    rfl
  have hlast : t₄ = (start names).1 := by
    simp only [start, Catalogue.vocabulary, NameTable.internAll_append]
    rfl
  -- what is entered later leaves the numbers as they are
  have hkinds : (DeviceKind.all.map DeviceKind.spelling).map t₁.idFor =
      (DeviceKind.all.map DeviceKind.spelling).map t₄.idFor := by
    have hlater : t₄ =
        t₁.internAll (gateInputLabels ++ flipFlopInputLabels ++ flipFlopOutputLabels) := by
      rw [NameTable.internAll_append, NameTable.internAll_append]
    rw [hlater]
    exact (NameTable.map_idFor_internAll _ _ _).symm
  have hgates : gateInputLabels.map t₂.idFor = gateInputLabels.map t₄.idFor := by
    have hlater : t₄ = t₂.internAll (flipFlopInputLabels ++ flipFlopOutputLabels) := by
      rw [NameTable.internAll_append]
    rw [hlater]
    exact (NameTable.map_idFor_internAll _ _ _).symm
  have hinputs : flipFlopInputLabels.map t₃.idFor = flipFlopInputLabels.map t₄.idFor :=
    (NameTable.map_idFor_internAll _ _ _).symm
  have hcatalogue : (start names).2.catalogue = .ofNames t₄ := by rw [hlast, start, empty]
  rw [hrun, hkinds, hgates, hinputs, hcatalogue, ← hlast, Catalogue.ofNames]
  rfl

/-! ## Devices made from machine words -/

/-- The first elements of a list, if it has so many. -/
def cut? {α : Type} (count : Nat) (xs : List α) : Option (List α) :=
  if count ≤ xs.length then some (xs.take count) else none

namespace Catalogue

/--
The pins of a device with a given number of inputs, cut out of the catalogue. It fails without a
cause if the catalogue has not so many.
-/
def cutInputs (c : Catalogue) (count : Nat) :
    Except (Option DeviceError) (List NameId × List (Option NameId)) :=
  match cut? count c.gateInputs with
  | some pins => .ok (pins, [none])
  | none => .error none

/-- The pins of a device that is made with a machine word. -/
def cutPins (c : Catalogue) (kind : DeviceKind) (qualifier : Option Int64) :
    Except (Option DeviceError) (List NameId × List (Option NameId)) :=
  match kind with
  | .and | .nand | .or | .nor =>
    match qualifier with
    | none => .error (some .noQualifier)
    | some count =>
      if ¬ (1 ≤ count ∧ count ≤ .ofNat maxGateInputs) then .error (some .invalidQualifier)
      else c.cutInputs count.toUInt64.toNat
  | .xor => if qualifier.isSome then .error (some .qualifierPresent) else c.cutInputs 2
  | .clock =>
    match qualifier with
    | none => .error (some .noQualifier)
    | some halfPeriod =>
      if halfPeriod ≤ 0 then .error (some .invalidQualifier) else .ok ([], [none])
  | .switch =>
    match qualifier with
    | none => .error (some .noQualifier)
    | some state =>
      if ¬ (state = 0 ∨ state = 1) then .error (some .invalidQualifier) else .ok ([], [none])
  | .dtype =>
    if qualifier.isSome then .error (some .qualifierPresent)
    else .ok (c.flipFlopInputs, c.flipFlopOutputs.map some)

theorem cutInputs_of_le {c : Catalogue} {count : Nat} (h : count ≤ c.gateInputs.length) :
    c.cutInputs count = .ok (c.gateInputs.take count, [none]) := by
  rw [cutInputs, cut?, if_pos h]

end Catalogue

/-! ## Comparing machine words decides the rules -/

namespace QualifierRule

/-- To compare words is to compare the numbers that they are, with their signs. -/
theorem check_gate (n : Int64) :
    (required 1 (some maxGateInputs)).check (some n.toInt) =
      if 1 ≤ n ∧ n ≤ .ofNat maxGateInputs then .ok () else .error .invalidQualifier := by
  have hrange : 1 ≤ n ∧ n ≤ .ofNat maxGateInputs ↔
      1 ≤ n.toInt ∧ n.toInt ≤ maxGateInputs := by
    rw [Int64.le_iff_toInt_le, Int64.le_iff_toInt_le]
    rfl
  simp only [check, Option.all_some, decide_eq_true_iff, hrange]

theorem check_clock (n : Int64) :
    (required 1 none).check (some n.toInt) =
      if n ≤ 0 then .error .invalidQualifier else .ok () := by
  have hrange : n ≤ 0 ↔ ¬ 1 ≤ n.toInt := by
    rw [Int64.le_iff_toInt_le, Int64.toInt_zero]
    omega
  simp only [check, Option.all_none, and_true, hrange, ite_not]

theorem check_switch (n : Int64) :
    (required 0 (some 1)).check (some n.toInt) =
      if n = 0 ∨ n = 1 then .ok () else .error .invalidQualifier := by
  have hrange : n = 0 ∨ n = 1 ↔ 0 ≤ n.toInt ∧ n.toInt ≤ 1 := by
    rw [← Int64.toInt_inj, ← Int64.toInt_inj, Int64.toInt_zero, Int64.toInt_one]
    omega
  simp only [check, Option.all_some, decide_eq_true_iff, hrange]

end QualifierRule

/-- A number that a gate admits is the same with and without its sign. -/
theorem toNat_toUInt64_of_one_le {n : Int64} (h : 1 ≤ n) : n.toUInt64.toNat = n.toInt.toNat :=
  Int64.toNat_toBitVec_of_le (Int64.le_trans (by decide) h)

/-- **No cut goes beyond the end**: the pins are those of the kind, or its rule refuses. -/
theorem Catalogue.cutPins_eq {c : Catalogue} (hc : c.gateInputs.length = maxGateInputs)
    (kind : DeviceKind) (qualifier : Option Int64) :
    c.cutPins kind qualifier =
      match kind.qualifierRule.check (qualifier.map Int64.toInt) with
      | .ok () => .ok (c.inputs kind (qualifier.map Int64.toInt), c.outputs kind)
      | .error e => .error (some e) := by
  cases kind with
  | and | nand | or | nor =>
      cases qualifier with
      | none => rfl
      | some n =>
          rw [cutPins, Option.map_some, DeviceKind.qualifierRule, QualifierRule.check_gate, ite_not]
          by_cases hn : 1 ≤ n ∧ n ≤ .ofNat maxGateInputs
          · have hle : n.toInt ≤ maxGateInputs := Int64.le_iff_toInt_le.mp hn.2
            rw [if_pos hn, if_pos hn, toNat_toUInt64_of_one_le hn.1, cutInputs_of_le (by omega)]
            rfl
          · rw [if_neg hn, if_neg hn]
  | xor =>
      cases qualifier with
      | none => exact cutInputs_of_le (by rw [hc]; decide)
      | some n => rfl
  | clock =>
      cases qualifier with
      | none => rfl
      | some n =>
          rw [cutPins, Option.map_some, DeviceKind.qualifierRule, QualifierRule.check_clock]
          split <;> rfl
  | switch =>
      cases qualifier with
      | none => rfl
      | some n =>
          rw [cutPins, Option.map_some, DeviceKind.qualifierRule, QualifierRule.check_switch,
            ite_not]
          split <;> rfl
  | dtype => cases qualifier <;> rfl

namespace Circuit

/--
Add a device that is made with a machine word. It fails without a cause where more is cut out of the
catalogue than is there.
-/
def Program.makeDevice (id kind : NameId) (qualifier : Option Int64) :
    Program DeviceError Unit := do
  let c ← get
  if (c.index.lookup id).isSome then refuse .devicePresent
  else
    match c.catalogue.kind? kind with
    | none => refuse .badDevice
    | some kind =>
      match c.catalogue.cutPins kind qualifier with
      | .error e => throw e
      | .ok (inputs, outputs) =>
        modify fun c => { c with index := c.index ++ [(id, c.devices.length)] }
        modify fun c => { c with devices := c.devices ++ [
          { id, kind, qualifier := qualifier.map Int64.toInt
            inputs := inputs.map (⟨·, none⟩), outputs }] }

theorem Program.makeDevice_eq {c : Circuit} {t : NameTable} (hc : c.Consistent t) (id kind : NameId)
    (qualifier : Option Int64) :
    makeDevice id kind qualifier c =
      ended c (c.addDevice id kind (qualifier.map Int64.toInt)) := by
  have hlength : c.catalogue.gateInputs.length = maxGateInputs := by
    rw [hc.catalogue]
    rfl
  rw [makeDevice, get_bind, Circuit.addDevice]
  by_cases hold : (c.index.lookup id).isSome = true
  · rw [if_pos hold, if_pos hold]
    rfl
  · rw [if_neg hold, if_neg hold]
    cases c.catalogue.kind? kind with
    | none => rfl
    | some k =>
        simp only [Catalogue.cutPins_eq hlength, Catalogue.device]
        cases k.qualifierRule.check (qualifier.map Int64.toInt) <;> rfl

end Circuit

/-! ## The table -/

/-- Whether the kind takes a qualifier. -/
def DeviceKind.takesQualifier : DeviceKind → Bool
  | xor | dtype => false
  | and | nand | or | nor | clock | switch => true

/--
**The device table**: for a kind and a qualifier that it takes, the labels of the inputs and of the
outputs. An output without a label has no name.
-/
inductive DeviceKind.Row :
    DeviceKind → Option Int → List String → List (Option String) → Prop where
  | gate {kind : DeviceKind} {n : Nat} (hkind : kind.isGate = true) (hleast : 1 ≤ n)
      (hgreatest : n ≤ 16) : Row kind (some n) (numberedLabels n) [none]
  | xor : Row .xor none ["I1", "I2"] [none]
  | clock {halfPeriod : Int} (hpositive : 0 < halfPeriod) : Row .clock (some halfPeriod) [] [none]
  | off : Row .switch (some 0) [] [none]
  | on : Row .switch (some 1) [] [none]
  | flipFlop : Row .dtype none ["DATA", "CLK", "SET", "CLEAR"] [some "Q", some "QBAR"]

namespace DeviceKind

variable {kind : DeviceKind} {qualifier : Option Int} {e : DeviceError}

/-- A row is there exactly for the qualifiers that the kind admits. -/
theorem row_iff {inputs : List String} {outputs : List (Option String)} :
    kind.Row qualifier inputs outputs ↔ kind.qualifierRule.Admits qualifier ∧
      inputs = Part.inputLabels ⟨"", kind, qualifier⟩ ∧
      outputs = Part.outputLabels ⟨"", kind, qualifier⟩ := by
  constructor
  · intro hrow
    cases hrow with
    | gate hkind hleast hgreatest =>
        cases kind with
        | and | nand | or | nor =>
            refine ⟨⟨_, rfl, by omega, ?_⟩, (take_gateInputLabels hgreatest).symm, rfl⟩
            rintro g ⟨⟩
            simpa [maxGateInputs] using hgreatest
        | xor | clock | switch | dtype => cases hkind
    | xor => exact ⟨rfl, rfl, rfl⟩
    | clock hpositive => exact ⟨⟨_, rfl, hpositive, by simp⟩, rfl, rfl⟩
    | off => exact ⟨⟨_, rfl, by simp⟩, rfl, rfl⟩
    | on => exact ⟨⟨_, rfl, by simp⟩, rfl, rfl⟩
    | flipFlop => exact ⟨rfl, rfl, rfl⟩
  · rintro ⟨hadmits, rfl, rfl⟩
    cases kind with
    | and | nand | or | nor =>
        obtain ⟨n, rfl, hleast, hgreatest⟩ := hadmits
        have hle : n ≤ 16 := hgreatest _ rfl
        obtain ⟨n, rfl⟩ := Int.eq_ofNat_of_zero_le (by omega : 0 ≤ n)
        have hlabels : gateInputLabels.take n = numberedLabels n :=
          take_gateInputLabels (Int.ofNat_le.mp hle)
        simp only [Part.inputLabels, Option.getD_some, Int.toNat_natCast, hlabels]
        exact .gate rfl (by omega) (by omega)
    | xor =>
        obtain rfl := hadmits
        exact .xor
    | clock =>
        obtain ⟨n, rfl, hpositive, -⟩ := hadmits
        exact .clock hpositive
    | switch =>
        obtain ⟨n, rfl, hleast, hgreatest⟩ := hadmits
        have hle : n ≤ 1 := hgreatest _ rfl
        obtain rfl | rfl : n = 0 ∨ n = 1 := by omega
        · exact .off
        · exact .on
    | dtype =>
        obtain rfl := hadmits
        exact .flipFlop

theorem spelling_inj {k l : DeviceKind} (h : k.spelling = l.spelling) : k = l :=
  Option.some.inj ((ofSpelling?_eq_some_iff.mpr h).symm.trans (ofSpelling?_eq_some_iff.mpr rfl))

/-- How a kind refuses a qualifier that has no row, or the absence of one. -/
inductive Misfit : DeviceKind → Option Int → DeviceError → Prop where
  | missing {kind : DeviceKind} (htakes : kind.takesQualifier = true) :
      Misfit kind none .noQualifier
  | unwanted {kind : DeviceKind} {n : Int} (htakes : kind.takesQualifier = false) :
      Misfit kind (some n) .qualifierPresent
  | outside {kind : DeviceKind} {n : Int} (htakes : kind.takesQualifier = true)
      (hno : ∀ inputs outputs, ¬ kind.Row (some n) inputs outputs) :
      Misfit kind (some n) .invalidQualifier

theorem Row.isSome_eq {inputs : List String} {outputs : List (Option String)}
    (h : kind.Row qualifier inputs outputs) : qualifier.isSome = kind.takesQualifier := by
  cases h with
  | gate hkind =>
      cases kind with
      | and | nand | or | nor => rfl
      | xor | clock | switch | dtype => cases hkind
  | xor | clock | off | on | flipFlop => rfl

theorem Misfit.not_row (h : kind.Misfit qualifier e) (inputs : List String)
    (outputs : List (Option String)) : ¬ kind.Row qualifier inputs outputs := by
  intro hrow
  have htaken := hrow.isSome_eq
  cases h with
  | missing htakes => simp [htakes] at htaken
  | unwanted htakes => simp [htakes] at htaken
  | outside _ hno => exact hno inputs outputs hrow

theorem Misfit.unique {e' : DeviceError} (h : kind.Misfit qualifier e)
    (h' : kind.Misfit qualifier e') : e = e' := by
  cases h with
  | missing => cases h'; rfl
  | unwanted htakes =>
      cases h' with
      | unwanted => rfl
      | outside htakes' => rw [htakes] at htakes'; cases htakes'
  | outside htakes =>
      cases h' with
      | unwanted htakes' => rw [htakes] at htakes'; cases htakes'
      | outside => rfl

/-- A kind whose rule forbids a qualifier takes none, and one whose rule requires it takes one. -/
theorem qualifierRule_cases (kind : DeviceKind) :
    kind.takesQualifier = false ∧ kind.qualifierRule = .forbidden ∨
      kind.takesQualifier = true ∧
        ∃ least greatest, kind.qualifierRule = .required least greatest := by
  cases kind with
  | xor | dtype => exact .inl ⟨rfl, rfl⟩
  | and | nand | or | nor | clock | switch => exact .inr ⟨rfl, _, _, rfl⟩

/-- What the rule of the kind refuses, the table refuses for the same cause. -/
theorem misfit_of_check (h : kind.qualifierRule.check qualifier = .error e) :
    kind.Misfit qualifier e := by
  have hno : ∀ inputs outputs, ¬ kind.Row qualifier inputs outputs := by
    intro inputs outputs hrow
    rw [QualifierRule.check_eq_ok_iff.mpr (row_iff.mp hrow).1] at h
    cases h
  rcases kind.qualifierRule_cases with ⟨htakes, hrule⟩ | ⟨htakes, least, greatest, hrule⟩
  · rw [hrule] at h
    cases qualifier with
    | none => cases h
    | some n =>
        cases h
        exact .unwanted htakes
  · rw [hrule] at h
    cases qualifier with
    | none =>
        cases h
        exact .missing htakes
    | some n =>
        rw [QualifierRule.check] at h
        split at h
        · cases h
        · cases h
          exact .outside htakes hno

end DeviceKind

/-! ## A circuit answers by the table -/

/-- A device has the pins of a row, and nothing drives its inputs yet. -/
structure Device.Fits (t : NameTable) (d : Device) (inputs : List String)
    (outputs : List (Option String)) : Prop where
  inputs : d.inputs.map (fun i => t.lookup? i.pin) = inputs.map some
  outputs : d.outputs.map (Option.map t.lookup?) = outputs.map (Option.map some)
  undriven : ∀ i ∈ d.inputs, i.source = none

/-- A number is that of a kind if the name behind it is the spelling of the kind. -/
theorem Catalogue.kind?_ofNames_eq_some_iff {t : NameTable} (ht : t.HasVocabulary)
    (hnodup : t.names.Nodup) {id : NameId} {k : DeviceKind} :
    (ofNames t).kind? id = some k ↔ t.lookup? id = some k.spelling := by
  have hentered : ∀ l : DeviceKind, t.lookup? (t.idFor l.spelling) = some l.spelling :=
    fun l => NameTable.lookup?_idFor (ht _ (spelling_mem_vocabulary l))
  constructor
  · intro hk
    obtain ⟨entry, hfind, rfl⟩ := Option.map_eq_some_iff.mp hk
    obtain ⟨l, -, rfl⟩ := List.mem_map.mp (List.mem_of_find?_eq_some hfind)
    have hid : t.idFor l.spelling = id := by simpa using List.find?_some hfind
    rw [← hid]
    exact hentered l
  · intro hid
    rw [NameTable.lookup?_inj hnodup hid (hentered k), kind?_ofNames ht,
      DeviceKind.ofSpelling?_eq_some_iff]

namespace Circuit

variable {t : NameTable} {c : Circuit} {id kind : NameId} {qualifier : Option Int}

/--
What the table answers, in the order in which causes go before one another: no cause if the device
is taken.
-/
inductive Verdict (t : NameTable) (c : Circuit) (id kind : NameId) (qualifier : Option Int) :
    Option DeviceError → Prop where
  | devicePresent (hold : ∃ d ∈ c.devices, d.id = id) :
      Verdict t c id kind qualifier (some .devicePresent)
  | badDevice (hnew : ¬ ∃ d ∈ c.devices, d.id = id)
      (hkind : ∀ k : DeviceKind, t.lookup? kind ≠ some k.spelling) :
      Verdict t c id kind qualifier (some .badDevice)
  | misfit {k : DeviceKind} {e : DeviceError} (hnew : ¬ ∃ d ∈ c.devices, d.id = id)
      (hkind : t.lookup? kind = some k.spelling) (hmisfit : k.Misfit qualifier e) :
      Verdict t c id kind qualifier (some e)
  | taken {k : DeviceKind} {inputs : List String} {outputs : List (Option String)}
      (hnew : ¬ ∃ d ∈ c.devices, d.id = id) (hkind : t.lookup? kind = some k.spelling)
      (hrow : k.Row qualifier inputs outputs) : Verdict t c id kind qualifier none

/-- The table has one answer. -/
theorem Verdict.unique {e e' : Option DeviceError} (h : Verdict t c id kind qualifier e)
    (h' : Verdict t c id kind qualifier e') : e = e' := by
  cases h with
  | devicePresent hold =>
      cases h' with
      | devicePresent => rfl
      | badDevice hnew | misfit hnew | taken hnew => exact absurd hold hnew
  | badDevice hnew hkind =>
      cases h' with
      | devicePresent hold => exact absurd hold hnew
      | badDevice => rfl
      | misfit _ hkind' | taken _ hkind' => exact absurd hkind' (hkind _)
  | misfit hnew hkind hmisfit =>
      cases h' with
      | devicePresent hold => exact absurd hold hnew
      | badDevice _ hkind' => exact absurd hkind (hkind' _)
      | misfit _ hkind' hmisfit' =>
          obtain rfl := DeviceKind.spelling_inj (Option.some.inj (hkind.symm.trans hkind'))
          exact congrArg some (hmisfit.unique hmisfit')
      | taken _ hkind' hrow =>
          obtain rfl := DeviceKind.spelling_inj (Option.some.inj (hkind.symm.trans hkind'))
          exact absurd hrow (hmisfit.not_row _ _)
  | taken hnew hkind hrow =>
      cases h' with
      | devicePresent hold => exact absurd hold hnew
      | badDevice _ hkind' => exact absurd hkind (hkind' _)
      | misfit _ hkind' hmisfit =>
          obtain rfl := DeviceKind.spelling_inj (Option.some.inj (hkind.symm.trans hkind'))
          exact absurd hrow (hmisfit.not_row _ _)
      | taken => rfl

/-- A refused device is refused for the cause that the table gives. -/
theorem verdict_of_error (ht : t.HasVocabulary) (hnodup : t.names.Nodup) (hc : c.Consistent t)
    {e : DeviceError} (h : c.addDevice id kind qualifier = .error e) :
    Verdict t c id kind qualifier (some e) := by
  rw [addDevice] at h
  by_cases hold : (c.index.lookup id).isSome = true
  · rw [if_pos hold] at h
    cases h
    refine .devicePresent (not_not.mp fun hnew => ?_)
    rw [hc.indexed.lookup_eq_none_iff.mpr hnew] at hold
    cases hold
  · rw [if_neg hold] at h
    have hnew := hc.indexed.lookup_eq_none_iff.mp (Option.not_isSome_iff_eq_none.mp hold)
    have hkinds : ∀ k : DeviceKind,
        c.catalogue.kind? kind = some k ↔ t.lookup? kind = some k.spelling := by
      rw [hc.catalogue]
      exact fun k => Catalogue.kind?_ofNames_eq_some_iff ht hnodup
    cases hkind : c.catalogue.kind? kind with
    | none =>
        rw [hkind] at h
        cases h
        refine .badDevice hnew fun k hk => ?_
        rw [(hkinds k).mpr hk] at hkind
        cases hkind
    | some k =>
        simp only [hkind, Catalogue.device] at h
        cases hcheck : k.qualifierRule.check qualifier with
        | ok => simp [hcheck, bind, Except.bind, pure, Except.pure] at h
        | error e' =>
            simp only [hcheck, bind, Except.bind] at h
            cases h
            exact .misfit hnew ((hkinds k).mp hkind) (DeviceKind.misfit_of_check hcheck)

/-- One device is put behind the others, with the pins of its row of the table. -/
def AddsRow (t : NameTable) (c : Circuit) (id kind : NameId) (qualifier : Option Int)
    (next : Circuit) : Prop :=
  ∃ (k : DeviceKind) (inputs : List String) (outputs : List (Option String)) (d : Device),
    t.lookup? kind = some k.spelling ∧ k.Row qualifier inputs outputs ∧
      d.id = id ∧ d.kind = k ∧ d.qualifier = qualifier ∧ d.Fits t inputs outputs ∧
      next = { c with
        devices := c.devices ++ [d]
        index := c.index ++ [(id, c.devices.length)] }

theorem verdict_of_ok (ht : t.HasVocabulary) (hnodup : t.names.Nodup) (hc : c.Consistent t)
    {next : Circuit} (h : c.addDevice id kind qualifier = .ok next) :
    Verdict t c id kind qualifier none ∧ c.AddsRow t id kind qualifier next := by
  obtain ⟨hold, k, hkind, d, hmade, rfl⟩ := addDevice_eq_ok_iff.mp h
  have hnew := hc.indexed.lookup_eq_none_iff.mp (Option.not_isSome_iff_eq_none.mp hold)
  rw [hc.catalogue] at hkind hmade
  have hspelling := (Catalogue.kind?_ofNames_eq_some_iff ht hnodup).mp hkind
  obtain ⟨hid, hprescribed, hundriven⟩ := prescribed_device ht hmade
  obtain ⟨hadmits, hd⟩ := Catalogue.device_eq_ok_iff.mp hmade
  have hrow := DeviceKind.row_iff.mpr ⟨hadmits, rfl, rfl⟩
  refine ⟨.taken hnew hspelling hrow, k, _, _, d, hspelling, hrow, hid, ?_, ?_, ?_, rfl⟩
  · rw [hd]
  · rw [hd]
  · have hinputs := hprescribed.inputs
    have houtputs := hprescribed.outputs
    refine ⟨hinputs.trans ?_, houtputs.trans ?_, hundriven⟩
    · rw [hd]
      rfl
    · rw [hd]
      rfl

theorem answer_device_cases (ht : t.HasVocabulary) (hnodup : t.names.Nodup)
    (hc : c.Consistent t) (id kind : NameId) (qualifier : Option Int) :
    (∃ next, NetworkBuilder.answer c (.device id kind qualifier) = (none, next) ∧
        Verdict t c id kind qualifier none ∧ c.AddsRow t id kind qualifier next) ∨
      ∃ e, NetworkBuilder.answer c (.device id kind qualifier) = (some (.device e), c) ∧
        Verdict t c id kind qualifier (some e) := by
  simp only [NetworkBuilder.answer, NetworkBuilder.makeDevice]
  cases hadd : c.addDevice id kind qualifier with
  | ok next => exact .inl ⟨next, rfl, verdict_of_ok ht hnodup hc hadd⟩
  | error e => exact .inr ⟨e, rfl, verdict_of_error ht hnodup hc hadd⟩

/-- A circuit is started over a table that holds the vocabulary, and has no repetitions. -/
theorem start_eq_of_nodup {names : NameTable} (h : names.names.Nodup) :
    ∃ t, t.HasVocabulary ∧ t.names.Nodup ∧ start names = (t, empty t) :=
  ⟨names.internAll Catalogue.vocabulary,
    fun _ hname => NameTable.mem_names_internAll.mpr (.inr hname),
    NameTable.nodup_names_internAll h _, rfl⟩

/--
**A circuit answers by the device table**, over any names entered before it is started, after any
calls, and with any names entered since. Each cause is given exactly where the table gives it, and
a device is taken exactly where there is a row. It is then put behind the others with the pins of
the row, and nothing else changes; a refused device changes nothing at all. Where the device is made
with the qualifier as a machine word, the outcome is the same and no cut goes beyond the end.
-/
theorem answer_device_by_table (entered more : List String) (codes : Nat) (calls : List Call)
    (id kind : NameId) (qualifier : Option Int64) :
    let begun := start ((NameTable.empty.internAll entered).reserveCodes codes)
    let t := begun.1.internAll more
    let c := begun.2.after calls
    let number := qualifier.map Int64.toInt
    let answer := NetworkBuilder.answer c (.device id kind number)
    (∀ cause, answer.1 = cause.map .device ↔ Verdict t c id kind number cause) ∧
      (answer.1 = none → c.AddsRow t id kind number answer.2) ∧
      (answer.1 ≠ none → answer.2 = c) ∧
      (Program.makeDevice id kind qualifier).outcome .device c = some answer := by
  have hentered : ((NameTable.empty.internAll entered).reserveCodes codes).names.Nodup :=
    NameTable.nodup_names_internAll List.nodup_nil entered
  obtain ⟨t₀, ht₀, hnodup₀, hstart⟩ := start_eq_of_nodup hentered
  rw [hstart]
  intro begun t c number answer
  have ht : t.HasVocabulary := fun name hname =>
    NameTable.mem_names_internAll.mpr (.inl (ht₀ name hname))
  have hnodup : t.names.Nodup := NameTable.nodup_names_internAll hnodup₀ more
  have hc : c.Consistent t :=
    (consistent_after ht₀ (consistent_empty t₀) calls).internAll ht₀ more
  have hprogram : (Program.makeDevice id kind qualifier).outcome .device c = some answer :=
    Program.outcome_eq (Program.makeDevice_eq hc id kind qualifier) _
  -- the table has one answer, so the one that is given is the only one
  have hiff : ∀ given : Option DeviceError, answer.1 = given.map .device →
      Verdict t c id kind number given →
      ∀ cause, answer.1 = cause.map .device ↔ Verdict t c id kind number cause := by
    intro given hgiven hverdict cause
    rw [hgiven]
    refine ⟨fun heq => ?_, fun hother => congrArg _ (hverdict.unique hother)⟩
    rwa [← Option.map_injective (fun _ _ => ErrorKind.device.inj) heq]
  have hcases : (∃ next, answer = (none, next) ∧ Verdict t c id kind number none ∧
        c.AddsRow t id kind number next) ∨
      ∃ e, answer = (some (.device e), c) ∧ Verdict t c id kind number (some e) :=
    answer_device_cases ht hnodup hc id kind number
  rcases hcases with ⟨next, hanswer, hverdict, hadds⟩ | ⟨e, hanswer, hverdict⟩
  · refine ⟨hiff none (by rw [hanswer]; rfl) hverdict, fun _ => ?_, fun hrefused => ?_, hprogram⟩
    · rw [hanswer]
      exact hadds
    · rw [hanswer] at hrefused
      exact absurd rfl hrefused
  · refine ⟨hiff (some e) (by rw [hanswer]; rfl) hverdict, fun htaken => ?_, fun _ => ?_, hprogram⟩
    · rw [hanswer] at htaken
      cases htaken
    · rw [hanswer]

end Circuit

end LogicNet
