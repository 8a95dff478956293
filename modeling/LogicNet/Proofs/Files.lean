import LogicNet.Proofs.Program

/-!
# Which files are read

A path is followed part by part, and where it leads can be said without reading anything
(`Directory.Leads`). A file is read if its path leads to it and its bytes are those of a text, and
then that text is what is read (`Directory.read_eq_ok_iff`). Where nothing fails to be written, the
program gives a verdict on these files and on no others (`Command.code_ne_two_iff`).
-/

namespace LogicNet

/-- Decoding undoes the encoding of a text, and takes nothing else. -/
theorem decodeFile_eq_ok_iff {bytes : ByteArray} {text : String} :
    decodeFile bytes = .ok text ↔ bytes = text.toUTF8 := by
  rw [decodeFile, String.fromUTF8?]
  split
  · next text' htext =>
    split at htext
    · cases htext
      constructor
      · intro h
        cases h
        rfl
      · rintro rfl
        rfl
    · cases htext
  · next hnone =>
    split at hnone
    · cases hnone
    · next hinvalid =>
      refine ⟨fun h => (nomatch h), ?_⟩
      rintro rfl
      exact absurd text.isValidUTF8 hinvalid

namespace Directory

/-! ## Where a path leads -/

/-- From the directory at one place, the parts of a path lead to another place. -/
inductive Leads (d : Directory) : List String → List String → List String → Prop
  | here {way : List String} : Leads d way [] way
  | stay {way parts goal : List String} {part : String} :
      d.entry? way = some .directory → part = "" ∨ part = "." → Leads d way parts goal →
        Leads d way (part :: parts) goal
  | up {way parts goal : List String} {name : String} :
      d.entry? (way ++ [name]) = some .directory → Leads d way parts goal →
        Leads d (way ++ [name]) (".." :: parts) goal
  | down {way parts goal : List String} {name : String} :
      d.entry? way = some .directory → name ∉ ["", ".", ".."] →
        name.utf8ByteSize ≤ maxNameBytes → Leads d (way ++ [name]) parts goal →
        Leads d way (name :: parts) goal

/-- A path leads to a file that holds a text. Nothing is read above the directory. -/
def Finds (d : Directory) (path text : String) : Prop :=
  pathError? path = none ∧ path.startsWith "/" = false ∧
    ∃ way, d.Leads [] (path.splitOn "/") way ∧ d.entry? way = some (.file text.toUTF8)

variable {d : Directory} {text : String}

/-- Above the directory there is no file to be read. -/
theorem readAlong_none (d : Directory) (parts : List String) (text : String) :
    d.readAlong none parts ≠ .ok text := by
  induction parts with
  | nil => exact fun h => nomatch h
  | cons part parts ih =>
      rw [readAlong]
      split
      · exact ih
      · split <;> exact fun h => nomatch h

section Parts

variable {way parts goal : List String} {part : String}

/-- Only a directory leads on. -/
theorem Leads.entry?_eq (h : d.Leads way (part :: parts) goal) :
    d.entry? way = some .directory := by
  cases h with
  | stay hentry | up hentry | down hentry => exact hentry

theorem leads_stay_iff (hentry : d.entry? way = some .directory) (hpart : part = "" ∨ part = ".") :
    d.Leads way (part :: parts) goal ↔ d.Leads way parts goal := by
  refine ⟨fun h => ?_, .stay hentry hpart⟩
  cases h with
  | stay _ _ h => exact h
  | up => exact absurd hpart (by decide)
  | down _ hname => exact absurd hpart (by simp_all)

theorem leads_up_iff {name : String} (hentry : d.entry? (way ++ [name]) = some .directory) :
    d.Leads (way ++ [name]) (".." :: parts) goal ↔ d.Leads way parts goal := by
  refine ⟨fun h => ?_, .up hentry⟩
  generalize hway : way ++ [name] = here at h
  cases h with
  | stay _ hpart => exact absurd hpart (by decide)
  | up _ h =>
      obtain ⟨rfl, -⟩ := List.append_inj' hway rfl
      exact h
  | down _ hname => exact absurd hname (by decide)

/-- No path leads out of the directory and back again. -/
theorem not_leads_up : ¬ d.Leads [] (".." :: parts) goal := by
  intro h
  generalize hway : ([] : List String) = here at h
  cases h with
  | stay _ hpart => exact absurd hpart (by decide)
  | up => exact absurd hway (by simp)
  | down _ hname => exact absurd hname (by decide)

theorem leads_down_iff (hentry : d.entry? way = some .directory)
    (hpart : part ∉ ["", ".", ".."]) :
    d.Leads way (part :: parts) goal ↔
      part.utf8ByteSize ≤ maxNameBytes ∧ d.Leads (way ++ [part]) parts goal := by
  refine ⟨fun h => ?_, fun h => .down hentry hpart h.1 h.2⟩
  cases h with
  | stay _ hstay => exact absurd hstay (by simp_all)
  | up => exact absurd hpart (by decide)
  | down _ _ hsize h => exact ⟨hsize, h⟩

end Parts

/-- **Reading along a path** reads the file to which the path leads. -/
theorem readAlong_eq_ok_iff {way parts : List String} :
    d.readAlong (some way) parts = .ok text ↔
      ∃ goal, d.Leads way parts goal ∧ d.entry? goal = some (.file text.toUTF8) := by
  induction parts generalizing way with
  | nil =>
      have hhere : (∃ goal, d.Leads way [] goal ∧ d.entry? goal = some (.file text.toUTF8)) ↔
          d.entry? way = some (.file text.toUTF8) := by
        refine ⟨?_, fun h => ⟨way, .here, h⟩⟩
        rintro ⟨goal, hleads, hentry⟩
        cases hleads
        exact hentry
      rw [hhere, readAlong]
      cases d.entry? way with
      | none => simp
      | some entry =>
          cases entry with
          | directory => simp
          | file bytes => simp only [decodeFile_eq_ok_iff, Option.some.injEq, Entry.file.injEq]
  | cons part parts ih =>
      have hstuck : d.entry? way ≠ some .directory →
          ¬ ∃ goal, d.Leads way (part :: parts) goal ∧
            d.entry? goal = some (.file text.toUTF8) :=
        fun hentry ⟨_, hleads, _⟩ => hentry hleads.entry?_eq
      rw [readAlong]
      cases hentry : d.entry? way with
      | none => exact iff_of_false (fun h => nomatch h) (hstuck (by simp [hentry]))
      | some entry =>
          cases entry with
          | file bytes => exact iff_of_false (fun h => nomatch h) (hstuck (by simp [hentry]))
          | directory =>
              simp only []
              split
              · next hstay =>
                have hstay : part = "" ∨ part = "." := by simpa using hstay
                simp only [ih, leads_stay_iff hentry hstay]
              · next hstay =>
                split
                · next hup =>
                  subst hup
                  rcases List.eq_nil_or_concat way with rfl | ⟨up, name, rfl⟩
                  · exact iff_of_false (d.readAlong_none parts text)
                      fun ⟨_, hleads, _⟩ => not_leads_up hleads
                  · rw [List.concat_eq_append] at hentry ⊢
                    simp only [leads_up_iff hentry]
                    simpa using ih
                · next hup =>
                  have hpart : part ∉ ["", ".", ".."] := by simp_all
                  simp only [leads_down_iff hentry hpart]
                  split
                  · next hlong =>
                    exact iff_of_false (fun h => nomatch h)
                      fun ⟨_, hleads, _⟩ => Nat.not_le_of_lt hlong hleads.1
                  · next hshort =>
                    rw [ih]
                    simp only [Nat.le_of_not_lt hshort, true_and]

/-- **A file is read** if its path leads to it and its bytes are a text. -/
theorem read_eq_ok_iff {path : String} : d.read path = .ok text ↔ d.Finds path text := by
  rw [read, Finds]
  cases hpath : pathError? path with
  | some e => simp
  | none =>
      cases hroot : path.startsWith "/" with
      | true => simpa using d.readAlong_none _ text
      | false => simpa using readAlong_eq_ok_iff

end Directory

/-- **A verdict is given on the files that are read**, and on no others, where nothing fails. -/
theorem Command.code_ne_two_iff {σ : Type} [Sink σ] {taken : σ → List UInt8} {room : σ → Option Nat}
    (h : Sink.Fills taken room) {stdout : σ} (hroom : room stdout = none) (d : Directory)
    (file : String) (locations : Bool) :
    ((Command.check file locations).run d.read stdout).code ≠ 2 ↔ ∃ text, d.Finds file text := by
  have hexit : (Command.check file locations).run d.read stdout =
      checkFile file (d.read file) locations stdout := rfl
  simp only [hexit, ← Directory.read_eq_ok_iff]
  cases hread : d.read file with
  | error e => exact iff_of_false (fun hcode => hcode rfl) (by simp)
  | ok text =>
      obtain ⟨hcode, -, -⟩ := checkFile_of_unbounded h file text locations hroom
      refine iff_of_true ?_ ⟨text, rfl⟩
      rw [hcode]
      split <;> decide

end LogicNet
