import LinkSummary.Files.Disk
import Mathlib.Tactic.Common

/-!
# Disks are lawful

A file is put where no directory is, and paths lead through directories only. So after a file is
written all paths lead where they did: the file reads back, and all others are as before.
-/

namespace LinkSummary.Disk

variable {d d' : Disk} {path : String} {bytes : List UInt8} {names other : List String}

/-! ### Nodes -/

lemma lookup_cons (x : List String × Node) (xs : List (List String × Node)) (other : List String) :
    (x :: xs).lookup other = if other = x.1 then some x.2 else xs.lookup other := by
  rw [List.lookup_cons]
  by_cases h : other = x.1
  · rw [if_pos h, beq_iff_eq.mpr h]
  · rw [if_neg h, beq_false_of_ne h]

/-- Only the names that are placed lead to another node. -/
lemma lookup_place (names : List String) (node : Node) (nodes : List (List String × Node))
    (other : List String) : (place names node nodes).lookup other =
      if other = names then some node else nodes.lookup other := by
  induction nodes with
  | nil => rw [place, lookup_cons]
  | cons x xs ih =>
    rw [place]
    split
    · rw [lookup_cons]
    · split
      · rename_i heq
        rw [lookup_cons, lookup_cons, ← heq]
        split <;> rfl
      · rename_i hne
        rw [lookup_cons, lookup_cons, ih]
        by_cases hother : other = names
        · have hx : other ≠ x.1 := fun h => hne (hother.symm.trans h)
          simp only [if_neg hx, if_pos hother]
        · simp only [if_neg hother]

/-- The root is a directory, so no file is put there. -/
lemma node?_put (h : d.node? names ≠ some .directory) (other : List String) :
    (d.put names bytes).node? other =
      if other = names then some (.file bytes) else d.node? other := by
  cases other with
  | nil =>
    have hne : [] ≠ names := by
      rintro rfl
      exact h rfl
    rw [if_neg hne]
    rfl
  | cons name rest => exact lookup_place names _ d.nodes (name :: rest)

lemma node?_put_eq_directory_iff (h : d.node? names ≠ some .directory) :
    (d.put names bytes).node? other = some .directory ↔ d.node? other = some .directory := by
  rw [node?_put h]
  split
  · rename_i heq
    simp [heq, h]
  · rfl

/-! ### Paths -/

/-- A path is followed through directories. -/
lemma follow_cons_eq_ok_iff {start last parts : List String} {part : String} :
    d.follow start (part :: parts) = .ok last ↔ d.node? start = some .directory ∧
      ∃ next, enter start part = .ok next ∧ d.follow next parts = .ok last := by
  rw [follow]
  cases d.node? start with
  | none => simp
  | some node =>
    cases node with
    | file bytes => simp
    | directory => cases enter start part <;> simp

/-- A path leads where it did when a file is put where no directory is. -/
lemma follow_put (h : d.node? names ≠ some .directory) {start last parts : List String} :
    (d.put names bytes).follow start parts = .ok last ↔ d.follow start parts = .ok last := by
  induction parts generalizing start with
  | nil => rfl
  | cons part parts ih =>
    simp only [follow_cons_eq_ok_iff, node?_put_eq_directory_iff h, ih]

lemma locate_put (h : d.node? names ≠ some .directory) {last parts : List String} :
    (d.put names bytes).locate path parts = .ok last ↔ d.locate path parts = .ok last := by
  rw [locate, locate]
  split
  · rfl
  · split
    · rfl
    · exact follow_put h

/-! ### Reading and writing -/

lemma read_eq_ok_iff : d.read path = .ok bytes ↔ ∃ names,
    d.locate path (Path.parts path) = .ok names ∧ d.node? names = some (.file bytes) := by
  rw [read]
  cases d.locate path (Path.parts path) with
  | error e => simp
  | ok names =>
    simp only [Except.ok.injEq, exists_eq_left']
    cases d.node? names with
    | none => simp
    | some node => cases node <;> simp

lemma target_eq_ok_iff : d.target path = .ok names ↔ Path.endsWithSlash path = false ∧
    d.locate path (Path.parts path) = .ok names ∧ d.node? names ≠ some .directory := by
  rw [target]
  split
  · rename_i hslash
    rw [hslash]
    cases d.locate path (Path.partsBeforeSlash path) <;> simp
  · rename_i hslash
    rw [Bool.not_eq_true] at hslash
    rw [hslash]
    cases d.locate path (Path.parts path) with
    | error e => simp
    | ok names' =>
      by_cases hnode : d.node? names' = some .directory
      · simp only [hnode, if_true, reduceCtorEq, Except.ok.injEq, false_iff]
        rintro ⟨-, rfl, hother⟩
        exact hother hnode
      · simp only [hnode, if_false, Except.ok.injEq, true_and]
        refine ⟨?_, And.left⟩
        rintro rfl
        exact ⟨rfl, hnode⟩

lemma write_eq_ok_iff : d.write path bytes = .ok d' ↔
    ∃ names, d.target path = .ok names ∧ d.put names bytes = d' := by
  rw [write]
  cases d.target path <;> simp

lemma file?_eq_some_iff : d.file? path = some names ↔
    d.locate path (Path.parts path) = .ok names := by
  rw [file?]
  cases d.locate path (Path.parts path) <;> simp [Except.toOption]

lemma contents?_eq_some_iff : d.contents? names = some bytes ↔
    d.node? names = some (.file bytes) := by
  rw [contents?]
  cases d.node? names with
  | none => simp
  | some node => cases node <;> simp

/-- Whether a file can be written at a path does not depend on what is written. -/
lemma writable_of_target (h : d.target path = .ok names) (bytes : List UInt8) :
    FileSystem.Writable d path bytes :=
  ⟨d.put names bytes, write_eq_ok_iff.mpr ⟨names, h, rfl⟩⟩

lemma file?_put (h : d.node? names ≠ some .directory) (path : String) :
    (d.put names bytes).file? path = d.file? path := by
  apply Option.ext
  intro last
  rw [file?_eq_some_iff, file?_eq_some_iff, locate_put h]

lemma contents?_put (h : d.node? names ≠ some .directory) (hne : other ≠ names) :
    (d.put names bytes).contents? other = d.contents? other := by
  rw [contents?, contents?, node?_put h, if_neg hne]

instance : LawfulFileSystem Disk where
  read_eq_ok_iff {d path bytes} := by
    refine read_eq_ok_iff.trans (exists_congr fun names => ?_)
    exact and_congr file?_eq_some_iff.symm contents?_eq_some_iff.symm
  exists_writes {d d' path bytes} h := by
    obtain ⟨names, htarget, rfl⟩ := write_eq_ok_iff.mp h
    obtain ⟨-, hlocate, hnode⟩ := target_eq_ok_iff.mp htarget
    refine ⟨names, ?_⟩
    constructor
    case leads => exact (file?_put hnode path).trans (file?_eq_some_iff.mpr hlocate)
    case contents => exact contents?_eq_some_iff.mpr ((node?_put hnode names).trans (if_pos rfl))
    case others => exact fun other hne => contents?_put hnode hne
    case paths => exact fun other => .inl (file?_put hnode other)

/-- Paths from the root, through other directories and back, and why some lead nowhere. -/
example :
    let d : Disk := { nodes := [(["a"], .directory), (["a", "f"], .file [1])], working := ["a"] }
    d.read "f" = .ok [1] ∧ d.read "/a/./f" = .ok [1] ∧ d.read "../a//f" = .ok [1] ∧
      d.read "/../a/f" = .ok [1] ∧ d.read "g" = .error .notFound ∧
      d.read "." = .error .isDirectory ∧ d.read "f/" = .error .notDirectory ∧
      d.read "f/g" = .error .notDirectory ∧ d.write "f/" [2] = .error .isDirectory ∧
      d.write "g/h" [2] = .error .notFound ∧
      d.write "../a/g" [2] = .ok { d with nodes := d.nodes ++ [(["a", "g"], .file [2])] } := by
  decide +kernel

end LinkSummary.Disk
