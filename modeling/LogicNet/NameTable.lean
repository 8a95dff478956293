/-!
# Names and their numbers

Every name of a definition file, a device, a type, a pin or a keyword, is entered once in a table
and known by its number from then on. A number is the place of its name in the table, so numbers
are dense and a name keeps its number however much is entered later.
-/

namespace LogicNet

/-- The number of a name in its table. -/
structure NameId where
  index : Nat
deriving DecidableEq, Inhabited

namespace NameId

/-- A number as it is shown to a reader. -/
def label (id : NameId) : String := "#" ++ toString id.index

end NameId

/-- The names entered so far, in the order of their numbers, and how many error codes are taken. -/
structure NameTable where
  names : List String
  codes : Nat
deriving DecidableEq, Inhabited

namespace NameTable

/-- A table without names. -/
def empty : NameTable := ⟨[], 0⟩

/-- How many names the table holds. -/
def size (t : NameTable) : Nat := t.names.length

/-- The number that `name` has, or gets when it is entered next. -/
def idFor (t : NameTable) (name : String) : NameId := ⟨t.names.idxOf name⟩

/-- The number of `name`, if it was entered. -/
def query? (t : NameTable) (name : String) : Option NameId :=
  if name ∈ t.names then some (t.idFor name) else none

/-- The name behind a number, if the number is in use. -/
def lookup? (t : NameTable) (id : NameId) : Option String := t.names[id.index]?

/-- Enter `name`, unless it is there already. -/
def intern (t : NameTable) (name : String) : NameTable :=
  if name ∈ t.names then t else { t with names := t.names ++ [name] }

/-- Enter several names, one after the other. -/
def internAll (t : NameTable) (names : List String) : NameTable := names.foldl intern t

/-- Take the next `count` error codes. They are the codes from `t.codes` up to the new `codes`. -/
def reserveCodes (t : NameTable) (count : Nat) : NameTable := { t with codes := t.codes + count }

/-! ## What entering a name changes -/

@[simp] theorem mem_names_intern {t : NameTable} {name x : String} :
    x ∈ (t.intern name).names ↔ x ∈ t.names ∨ x = name := by
  unfold intern
  split
  · next h => exact ⟨.inl, fun hx => hx.elim id fun e => e ▸ h⟩
  · simp

theorem intern_of_mem {t : NameTable} {name : String} (h : name ∈ t.names) :
    t.intern name = t := by
  simp [intern, h]

/-- A name that was entered keeps its number. -/
theorem idFor_intern_of_mem {t : NameTable} {name x : String} (h : x ∈ t.names) :
    (t.intern name).idFor x = t.idFor x := by
  unfold intern idFor
  split
  · rfl
  · simp [List.idxOf_append, h]

/-- A name gets the number that was foreseen for it. -/
@[simp] theorem idFor_intern_self {t : NameTable} {name : String} :
    (t.intern name).idFor name = t.idFor name := by
  unfold intern idFor
  split
  · rfl
  · next h => rw [List.idxOf_append, if_neg h, List.idxOf_cons_self, Nat.zero_add,
      List.idxOf_eq_length h]

@[simp] theorem mem_names_internAll {t : NameTable} {names : List String} {x : String} :
    x ∈ (t.internAll names).names ↔ x ∈ t.names ∨ x ∈ names := by
  unfold internAll
  induction names generalizing t with
  | nil => simp
  | cons name names ih =>
      rw [List.foldl_cons, ih, mem_names_intern, List.mem_cons, or_assoc]

/-- A name that was entered keeps its number, however much is entered later. -/
theorem idFor_internAll_of_mem {t : NameTable} {names : List String} {x : String}
    (h : x ∈ t.names) : (t.internAll names).idFor x = t.idFor x := by
  unfold internAll
  induction names generalizing t with
  | nil => rfl
  | cons name names ih =>
      rw [List.foldl_cons, ih (mem_names_intern.mpr (.inl h)), idFor_intern_of_mem h]

theorem lookup?_idFor {t : NameTable} {name : String} (h : name ∈ t.names) :
    t.lookup? (t.idFor name) = some name := by
  have hlt := List.idxOf_lt_length_of_mem h
  simp only [lookup?, idFor, List.getElem?_eq_getElem hlt, List.getElem_idxOf hlt]

/-- A name that was entered shares its number with no other. -/
theorem idFor_inj {t : NameTable} {x y : String} (h : x ∈ t.names) :
    t.idFor x = t.idFor y ↔ x = y := by
  refine ⟨?_, fun heq => heq ▸ rfl⟩
  intro heq
  have hx := lookup?_idFor h
  have hy : y ∈ t.names := by
    have hlt := List.idxOf_lt_length_of_mem h
    rw [show t.names.idxOf x = t.names.idxOf y from congrArg NameId.index heq] at hlt
    exact List.idxOf_lt_length_iff.mp hlt
  rw [heq, lookup?_idFor hy] at hx
  exact (Option.some.inj hx).symm

end NameTable

end LogicNet
