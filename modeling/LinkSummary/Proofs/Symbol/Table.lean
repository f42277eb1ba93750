import LinkSummary.Symbol.Table
import Mathlib.Algebra.Order.Ring.Nat
import Mathlib.Data.List.Induction
import Mathlib.Tactic.Common

/-!
# Laws of symbol tables

A table only grows at its end, so an id once given out keeps its name. As long as the positions fit
in 32 bits, the id that interning returns leads back to the name, and different ids lead to
different names.
-/

namespace LinkSummary.SymbolTable

variable {t t' : SymbolTable} {id id' : SymbolId} {name : String} {position : Nat}

/-! ### Names of ids -/

lemma get?_eq_some_iff :
    t.get? id = some name ↔ id ≠ .absent ∧ t.names[id.toNat - 1]? = some name := by
  by_cases h : id = .absent <;> simp [get?, SymbolId.isAbsent, h]

lemma contains_iff : t.contains id = true ↔ ∃ name, t.get? id = some name :=
  Option.isSome_iff_exists

lemma ne_absent_of_contains (h : t.contains id = true) : id ≠ .absent := by
  obtain ⟨name, hname⟩ := contains_iff.mp h
  exact (get?_eq_some_iff.mp hname).1

lemma toNat_pos (h : id ≠ .absent) : 0 < id.toNat := by
  rw [Nat.pos_iff_ne_zero]
  intro hzero
  exact h (SymbolId.toNat_injective (b := .absent) hzero)

/-- A name has one id only. -/
lemma get?_injective (h : t.get? id = some name) (h' : t.get? id' = some name) : id = id' := by
  obtain ⟨hne, hat⟩ := get?_eq_some_iff.mp h
  obtain ⟨hne', hat'⟩ := get?_eq_some_iff.mp h'
  have hpos := toNat_pos hne
  have hpos' := toNat_pos hne'
  have hlt := (List.getElem?_eq_some_iff.mp hat).1
  have := (List.getElem?_inj hlt t.nodup).mp (hat.trans hat'.symm)
  exact SymbolId.toNat_injective (by omega)

/-- The ids in use are the numbers from `1` to that of the names. -/
lemma contains_iff_toNat : t.contains id = true ↔ 1 ≤ id.toNat ∧ id.toNat ≤ t.size := by
  simp only [contains_iff, get?_eq_some_iff, exists_and_left, ← Option.isSome_iff_exists,
    isSome_getElem?, size]
  constructor
  · rintro ⟨hne, hlt⟩
    have hpos := toNat_pos hne
    omega
  · rintro ⟨hpos, hle⟩
    refine ⟨?_, by omega⟩
    rintro rfl
    cases hpos

/-! ### Ids of positions -/

lemma toNat_idAt (h : position + 1 < 2 ^ 32) : (idAt position).toNat = position + 1 := by
  simp only [idAt, SymbolId.toNat]
  exact UInt32.toNat_ofNat_of_lt' h

lemma get?_idAt (h : position + 1 < 2 ^ 32) (hname : t.names[position]? = some name) :
    t.get? (idAt position) = some name := by
  have hval := toNat_idAt h
  rw [get?_eq_some_iff]
  constructor
  · rintro habsent
    rw [habsent] at hval
    cases hval
  · rwa [hval, Nat.add_sub_cancel]

/-- While the positions fit in 32 bits, looking a name up inverts naming an id. -/
theorem lookup_eq_some_iff (h : t.size < 2 ^ 32) :
    t.lookup name = some id ↔ t.get? id = some name := by
  simp only [size] at h
  constructor
  · intro hid
    obtain ⟨position, hposition, rfl⟩ := Option.map_eq_some_iff.mp hid
    obtain ⟨hlt, heq, -⟩ := List.idxOf?_eq_some_iff.mp hposition
    exact get?_idAt (by omega) (by rw [List.getElem?_eq_getElem hlt, heq])
  · intro hname
    obtain ⟨-, hat⟩ := get?_eq_some_iff.mp hname
    have hmem : name ∈ t.names := List.mem_of_getElem? hat
    obtain ⟨found, hfound⟩ := Option.isSome_iff_exists.mp (lookup_isSome_iff.mpr hmem)
    obtain ⟨position, hposition, rfl⟩ := Option.map_eq_some_iff.mp hfound
    obtain ⟨hlt, heq, -⟩ := List.idxOf?_eq_some_iff.mp hposition
    have hback : t.get? (idAt position) = some name :=
      get?_idAt (by omega) (by rw [List.getElem?_eq_getElem hlt, heq])
    rw [hfound, get?_injective hname hback]

lemma lookup_eq_none_iff : t.lookup name = none ↔ name ∉ t.names := by
  rw [← Option.not_isSome_iff_eq_none, lookup_isSome_iff]

/-! ### Growth -/

/-- Interning keeps the names and their positions. -/
lemma names_prefix_insert (t : SymbolTable) (name : String) :
    t.names <+: (t.insert name).names := by
  by_cases h : name ∈ t.names
  · simpa only [insert_of_mem h] using List.prefix_rfl
  · rw [names_insert_of_not_mem h]
    exact List.prefix_append _ _

lemma get?_mono (h : t.names <+: t'.names) (hname : t.get? id = some name) :
    t'.get? id = some name := by
  obtain ⟨hne, hat⟩ := get?_eq_some_iff.mp hname
  obtain ⟨names, hnames⟩ := h
  have hlt := (List.getElem?_eq_some_iff.mp hat).1
  exact get?_eq_some_iff.mpr ⟨hne, by rw [← hnames, List.getElem?_append_left hlt, hat]⟩

lemma contains_mono (h : t.names <+: t'.names) (hid : t.contains id = true) :
    t'.contains id = true := by
  obtain ⟨name, hname⟩ := contains_iff.mp hid
  exact contains_iff.mpr ⟨name, get?_mono h hname⟩

/-- The id that interning returns leads to the name. -/
theorem get?_intern (h : (t.insert name).size < 2 ^ 32) :
    (t.insert name).get? (t.intern name).1 = some name := by
  by_cases hmem : name ∈ t.names
  · rw [insert_of_mem hmem] at h ⊢
    obtain ⟨id, hid⟩ := Option.isSome_iff_exists.mp (lookup_isSome_iff.mpr hmem)
    simp only [intern, hid]
    exact (lookup_eq_some_iff h).mp hid
  · have hnone : t.lookup name = none := lookup_eq_none_iff.mpr hmem
    have hnames := names_insert_of_not_mem hmem
    simp only [size, hnames, List.length_append, List.length_singleton] at h
    simp only [intern, hnone]
    exact get?_idAt h (by simp [hnames, size])

lemma contains_intern (h : (t.insert name).size < 2 ^ 32) :
    (t.insert name).contains (t.intern name).1 = true :=
  contains_iff.mpr ⟨name, get?_intern h⟩

/-- A name that is interned for the first time takes the id after the last. -/
lemma toNat_intern (hnew : t.lookup name = none) (h : (t.insert name).size < 2 ^ 32) :
    (t.intern name).1.toNat = t.size + 1 := by
  have hmem : name ∉ t.names := lookup_eq_none_iff.mp hnew
  rw [size, names_insert_of_not_mem hmem, List.length_append, List.length_singleton] at h
  rw [intern, hnew]
  exact toNat_idAt h

/-- Interning a name makes no other id lead to a name. -/
lemma get?_insert_of_ne (h : (t.insert name).size < 2 ^ 32) (hne : id ≠ (t.intern name).1) :
    (t.insert name).get? id = t.get? id := by
  by_cases hmem : name ∈ t.names
  · rw [insert_of_mem hmem]
  · apply Option.ext
    intro other
    refine ⟨fun hother => ?_, get?_mono (t.names_prefix_insert name)⟩
    obtain ⟨habsent, hat⟩ := get?_eq_some_iff.mp hother
    rw [names_insert_of_not_mem hmem] at hat
    rcases lt_or_ge (id.toNat - 1) t.names.length with hlt | hge
    · rw [List.getElem?_append_left hlt] at hat
      exact get?_eq_some_iff.mpr ⟨habsent, hat⟩
    · rw [List.getElem?_append_right hge] at hat
      have heq : other = name := by simpa using List.mem_of_getElem? hat
      subst heq
      exact absurd (get?_injective hother (get?_intern h)) hne

/-- Interning a name gives its id to this name only. -/
lemma lookup_insert (t : SymbolTable) (name other : String) : (t.insert name).lookup other =
    if other = name then some (t.intern name).1 else t.lookup other := by
  by_cases hmem : name ∈ t.names
  · obtain ⟨id, hid⟩ := Option.isSome_iff_exists.mp (lookup_isSome_iff.mpr hmem)
    rw [insert_of_mem hmem, intern, hid]
    split
    · rename_i heq
      rw [heq, hid]
    · rfl
  · have hlookup : t.lookup name = none := lookup_eq_none_iff.mpr hmem
    have hnone : t.names.findIdx? (· == name) = none := List.idxOf?_eq_none_iff.mpr hmem
    rw [lookup, names_insert_of_not_mem hmem, List.idxOf?, List.findIdx?_append,
      List.findIdx?_singleton]
    by_cases heq : other = name
    · rw [heq, hnone, intern, hlookup]
      simp [size]
    · simp [lookup, List.idxOf?, heq, Ne.symm heq]

/-! ### Tables of lists -/

/-- Different names that are not in a table are added to it in order. -/
lemma names_foldl_insert {names : List String} (h : (t.names ++ names).Nodup) :
    (names.foldl insert t).names = t.names ++ names := by
  induction names generalizing t with
  | nil => simp
  | cons name names ih =>
    have hnot : name ∉ t.names := fun hmem =>
      (List.nodup_append.mp h).2.2 name hmem name List.mem_cons_self rfl
    have hnames := names_insert_of_not_mem hnot
    rw [List.foldl_cons, ih (by simpa [hnames] using h), hnames, List.append_assoc,
      List.singleton_append]

lemma names_ofList {names : List String} (h : names.Nodup) : (ofList names).names = names :=
  (names_foldl_insert (t := empty) (by simpa [empty] using h)).trans (List.nil_append _)

lemma ofList_concat (names : List String) (name : String) :
    ofList (names ++ [name]) = (ofList names).insert name := by
  rw [ofList, List.foldl_append]
  rfl

/-- The table of a list has the names of the list, each where it comes first. -/
lemma names_ofList_eq (names : List String) : (ofList names).names = names.eraseDups := by
  induction names using List.reverseRecOn with
  | nil => rfl
  | append_singleton names name ih =>
    have hmem : name ∈ (ofList names).names ↔ name ∈ names := by rw [ih, List.mem_eraseDups]
    rw [ofList_concat, List.eraseDups_append, ← ih]
    by_cases hknown : name ∈ names
    · rw [insert_of_mem (hmem.mpr hknown)]
      simp [List.removeAll, hknown]
    · rw [names_insert_of_not_mem (hmem.not.mpr hknown)]
      simp [List.removeAll, hknown, List.eraseDups_cons]

/-- A table is the table of its names. -/
theorem ofList_names (t : SymbolTable) : ofList t.names = t := by
  have hnames := names_ofList t.nodup
  cases t
  cases h : ofList _
  simp_all

end LinkSummary.SymbolTable
