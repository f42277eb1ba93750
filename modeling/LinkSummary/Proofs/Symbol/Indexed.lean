import LinkSummary.Proofs.Symbol.Table
import LinkSummary.Symbol.Indexed

/-!
# The index of a symbol table

The names of a table and its index never part: whatever is interned, a table with an index answers
as the table of its names without one does. So ids and names are in one-to-one correspondence, and
tables with the same names cannot be told apart, although nothing compares their indexes.
-/

namespace LinkSummary.IndexedTable

variable {t t' : IndexedTable} {s : SymbolTable} {id : SymbolId} {name : String}

/-! ### One name -/

lemma intern_of_lookup (h : t.lookup name = some id) : t.intern name = (id, t) := by
  rw [intern, h]

lemma intern_of_lookup_eq_none (h : t.lookup name = none) :
    t.intern name = (SymbolTable.idAt t.size,
      ⟨t.names ++ [name], (name, SymbolTable.idAt t.size) :: t.index⟩) := by
  rw [intern, h]

/-- Afterwards the index leads from the name to the id that was returned. -/
lemma lookup_intern (t : IndexedTable) (name other : String) : (t.intern name).2.lookup other =
    if other = name then some (t.intern name).1 else t.lookup other := by
  cases hname : t.lookup name with
  | some id =>
    rw [intern_of_lookup hname]
    split
    · rename_i heq
      rw [heq, hname]
    · rfl
  | none =>
    rw [intern_of_lookup_eq_none hname, lookup, List.lookup_cons]
    by_cases heq : other = name
    · simp [heq]
    · rw [beq_eq_false_iff_ne.mpr heq, if_neg heq]
      rfl

/-- A table answers as one without index does. -/
structure Refines (t : IndexedTable) (s : SymbolTable) : Prop where
  names : t.names = s.names
  lookup : ∀ name, t.lookup name = s.lookup name

namespace Refines

lemma empty : IndexedTable.empty.Refines .empty :=
  ⟨rfl, fun _ => rfl⟩

lemma size (h : t.Refines s) : t.size = s.size :=
  congrArg List.length h.names

lemma get? (h : t.Refines s) (id : SymbolId) : t.get? id = s.get? id := by
  rw [IndexedTable.get?, SymbolTable.get?, h.names]

lemma contains (h : t.Refines s) (id : SymbolId) : t.contains id = s.contains id := by
  rw [IndexedTable.contains, SymbolTable.contains, h.get?]

lemma fst_intern (h : t.Refines s) (name : String) : (t.intern name).1 = (s.intern name).1 := by
  rw [IndexedTable.intern, SymbolTable.intern, ← h.lookup, ← h.size]
  cases t.lookup name with
  | some id => rfl
  | none => rfl

/-- A name that is interned goes into both parts. -/
lemma intern (h : t.Refines s) (name : String) : (t.intern name).2.Refines (s.insert name) := by
  refine ⟨?_, fun other => ?_⟩
  · cases hname : t.lookup name with
    | some id =>
      have hmem : name ∈ s.names := by
        rw [← SymbolTable.lookup_isSome_iff, ← h.lookup, hname, Option.isSome_some]
      rw [intern_of_lookup hname, SymbolTable.insert_of_mem hmem, h.names]
    | none =>
      have hmem : name ∉ s.names := SymbolTable.lookup_eq_none_iff.mp (h.lookup name ▸ hname)
      rw [intern_of_lookup_eq_none hname, SymbolTable.names_insert_of_not_mem hmem, h.names]
  · rw [lookup_intern, SymbolTable.lookup_insert, h.fst_intern, h.lookup]

end Refines

/-! ### Many names -/

/-- Intern some names in turn. -/
def internAll (t : IndexedTable) : List String → List SymbolId × IndexedTable
  | [] => ([], t)
  | name :: names =>
    ((t.intern name).1 :: ((t.intern name).2.internAll names).1,
      ((t.intern name).2.internAll names).2)

lemma snd_internAll (t : IndexedTable) (names : List String) :
    (t.internAll names).2 = names.foldl (fun t name => (t.intern name).2) t := by
  induction names generalizing t with
  | nil => rfl
  | cons name names ih => exact ih _

lemma Refines.foldl (h : t.Refines s) (names : List String) :
    (names.foldl (fun t name => (t.intern name).2) t).Refines
      (names.foldl SymbolTable.insert s) := by
  induction names generalizing t s with
  | nil => exact h
  | cons name names ih => exact ih (h.intern name)

lemma refines_ofList (names : List String) : (ofList names).Refines (.ofList names) :=
  Refines.empty.foldl names

/-- The table of a list, with more names interned, is that of the longer list. -/
lemma refines_internAll_ofList (start calls : List String) :
    ((ofList start).internAll calls).2.Refines (.ofList (start ++ calls)) := by
  rw [snd_internAll, SymbolTable.ofList, List.foldl_append]
  exact (refines_ofList start).foldl calls

lemma lookup_internAll_of_lookup (h : t.lookup name = some id) (names : List String) :
    (t.internAll names).2.lookup name = some id := by
  induction names generalizing t with
  | nil => exact h
  | cons other names ih =>
    apply ih
    rw [lookup_intern]
    split
    · rename_i heq
      rw [← heq, intern_of_lookup h]
    · exact h

/-- The ids that were returned are found at the end. -/
lemma map_some_internAll (t : IndexedTable) (names : List String) :
    (t.internAll names).1.map some = names.map (t.internAll names).2.lookup := by
  induction names generalizing t with
  | nil => rfl
  | cons name names ih =>
    have hname : (t.intern name).2.lookup name = some (t.intern name).1 := by
      rw [lookup_intern, if_pos rfl]
    have hlater := lookup_internAll_of_lookup hname names
    rw [internAll, List.map_cons, List.map_cons, hlater, ih]

/-! ### The correspondence -/

/-- A table is a one-to-one correspondence between the ids from `1` on and its names, which a name
that is interned leaves alone or continues. -/
structure IsBijection (t : IndexedTable) : Prop where
  toList_ids : t.toList.map (·.1.toNat) = List.range' 1 t.size
  toList_names : t.toList.map (·.2) = t.names
  contains_iff : ∀ id, t.contains id = true ↔ 1 ≤ id.toNat ∧ id.toNat ≤ t.size
  get?_iff : ∀ id name, t.get? id = some name ↔ t.lookup name = some id
  known : ∀ name id, t.lookup name = some id → t.intern name = (id, t)
  new : ∀ name, t.lookup name = none → t.size + 1 < 2 ^ 32 →
    (t.intern name).1.toNat = t.size + 1 ∧
      (t.intern name).2.get? (t.intern name).1 = some name ∧
      (∀ id, id ≠ (t.intern name).1 → (t.intern name).2.get? id = t.get? id) ∧
      ∀ other, other ≠ name → (t.intern name).2.lookup other = t.lookup other

lemma map_toNat_toList (h : t.size < 2 ^ 32) :
    t.toList.map (·.1.toNat) = List.range' 1 t.size := by
  apply List.ext_getElem
  · simp [toList, size]
  · intro position hposition _
    have hlt : position < t.size := by simpa [toList, size] using hposition
    simp only [toList, List.getElem_map, List.getElem_mapIdx, List.getElem_range']
    rw [SymbolTable.toNat_idAt (by omega)]
    omega

lemma map_snd_toList (t : IndexedTable) : t.toList.map (·.2) = t.names := by
  apply List.ext_getElem
  · simp [toList]
  · intro position _ _
    simp [toList]

theorem Refines.isBijection (h : t.Refines s) (hsize : t.size < 2 ^ 32) : t.IsBijection where
  toList_ids := map_toNat_toList hsize
  toList_names := t.map_snd_toList
  contains_iff id := by rw [h.contains, h.size, SymbolTable.contains_iff_toNat]
  get?_iff id name := by
    rw [h.get?, h.lookup]
    exact (SymbolTable.lookup_eq_some_iff (h.size ▸ hsize)).symm
  known name id := intern_of_lookup
  new name hnew hroom := by
    have hnew' : s.lookup name = none := h.lookup name ▸ hnew
    have hmem : name ∉ s.names := SymbolTable.lookup_eq_none_iff.mp hnew'
    have hroom' : (s.insert name).size < 2 ^ 32 := by
      rw [h.size] at hroom
      rwa [SymbolTable.size, SymbolTable.names_insert_of_not_mem hmem, List.length_append]
    have hafter := h.intern name
    refine ⟨?_, ?_, fun id hne => ?_, fun other hne => ?_⟩
    · rw [h.fst_intern, SymbolTable.toNat_intern hnew' hroom', h.size]
    · rw [hafter.get?, h.fst_intern, SymbolTable.get?_intern hroom']
    · rw [h.fst_intern] at hne
      rw [hafter.get?, h.get?, SymbolTable.get?_insert_of_ne hroom' hne]
    · rw [lookup_intern, if_neg hne]

/-! ### Tables that compare equal -/

lemma beq_iff : (t == t') = true ↔ t.names = t'.names := by
  show (t.names == t'.names) = true ↔ _
  exact beq_iff_eq

/-- Two tables give the same answers, now and after any names have been interned in both. -/
structure SameAnswers (t t' : IndexedTable) : Prop where
  get? : ∀ id, t.get? id = t'.get? id
  lookup : ∀ name, t.lookup name = t'.lookup name
  internAll : ∀ names, (t.internAll names).1 = (t'.internAll names).1 ∧
    ((t.internAll names).2 == (t'.internAll names).2) = true

lemma Refines.eq_of_beq {s' : SymbolTable} (h : t.Refines s) (h' : t'.Refines s')
    (heq : (t == t') = true) : s = s' := by
  have hnames : s.names = s'.names := by rw [← h.names, ← h'.names, beq_iff.mp heq]
  rw [← s.ofList_names, hnames, s'.ofList_names]

lemma Refines.internAll_eq (h : t.Refines s) (h' : t'.Refines s) (names : List String) :
    (t.internAll names).1 = (t'.internAll names).1 ∧
      ((t.internAll names).2 == (t'.internAll names).2) = true := by
  induction names generalizing t t' s with
  | nil => exact ⟨rfl, beq_iff.mpr (h.names.trans h'.names.symm)⟩
  | cons name names ih =>
    obtain ⟨hids, htables⟩ := ih (h.intern name) (h'.intern name)
    refine ⟨?_, htables⟩
    rw [internAll, internAll, hids, h.fst_intern, h'.fst_intern]

lemma Refines.sameAnswers (h : t.Refines s) (h' : t'.Refines s) : t.SameAnswers t' where
  get? id := (h.get? id).trans (h'.get? id).symm
  lookup name := (h.lookup name).trans (h'.lookup name).symm
  internAll := h.internAll_eq h'

/-- However many names are interned in a table made of a list, as long as no more than `2 ^ 32 - 1`
of them are different: the table is a bijection of the first ids with the names in the order of
their first occurrence, and each call has returned the id that is found at the end. It is told by
its list of names alone, for the table of this list compares equal to it, and tables that compare
equal give the same answers ever after. -/
theorem isBijection_internAll_ofList (start calls : List String)
    (hsize : (start ++ calls).eraseDups.length < 2 ^ 32) :
    let (ids, t) := (ofList start).internAll calls
    t.names = (start ++ calls).eraseDups ∧ ids.map some = calls.map t.lookup ∧ t.IsBijection ∧
      (ofList start).names = start.eraseDups ∧ (ofList t.names == t) = true ∧
      ∀ start' calls', (t == ((ofList start').internAll calls').2) = true →
        t.SameAnswers ((ofList start').internAll calls').2 := by
  have hrefines := refines_internAll_ofList start calls
  have hnames := hrefines.names.trans (SymbolTable.names_ofList_eq (start ++ calls))
  refine ⟨hnames, map_some_internAll _ calls, ?_, ?_, ?_, ?_⟩
  · refine hrefines.isBijection ?_
    rwa [size, hnames]
  · rw [(refines_ofList start).names, SymbolTable.names_ofList_eq]
  · have hrestored := (refines_ofList ((ofList start).internAll calls).2.names).names
    rw [hrefines.names, SymbolTable.ofList_names] at hrestored
    rw [beq_iff, hrefines.names, hrestored]
  · intro start' calls' heq
    have hrefines' := refines_internAll_ofList start' calls'
    exact hrefines.sameAnswers (hrefines.eq_of_beq hrefines' heq ▸ hrefines')

/-- A list that repeats a name, and calls for a name that is new and two that are not. -/
theorem isBijection_internAll_ofList_of_repetition :
    let (ids, t) := (ofList ["a", "b", "a"]).internAll ["b", "c", "a"]
    ids = [⟨2⟩, ⟨3⟩, ⟨1⟩] ∧ t.names = ["a", "b", "c"] ∧ t.IsBijection ∧
      t.SameAnswers ((ofList []).internAll ["a", "b", "b", "c"]).2 := by
  obtain ⟨-, -, hbijection, -, -, hsame⟩ :=
    isBijection_internAll_ofList ["a", "b", "a"] ["b", "c", "a"] (by decide +kernel)
  exact ⟨by decide +kernel, by decide +kernel, hbijection, hsame _ _ (by decide +kernel)⟩

end LinkSummary.IndexedTable
