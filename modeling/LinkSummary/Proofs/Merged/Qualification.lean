import LinkSummary.Proofs.Merge.Combined
import LinkSummary.Proofs.Merged.Named
import LinkSummary.Proofs.Merged.Union
import Mathlib.Data.List.Pairwise

/-!
# Definitions under qualified names

A merge files a definition under the name of its module, a dot, and its own name. Dots may also
stand within the names, so definitions of two modules can come to one merged name. This is so only
if one module is called like the other one, a dot and more, and only then is a definition lost.
-/

namespace LinkSummary

/-! ### Names with dots -/

lemma toList_qualified (m n : String) : (m ++ "." ++ n).toList = m.toList ++ '.' :: n.toList := by
  rw [String.toList_append, String.toList_append, List.append_assoc]
  rfl

/-- Names after a shorter and after a longer module name give one qualified name only if the longer
module name goes on with a dot where the shorter one ends. -/
lemma qualified_eq_iff {m m' n n' : String} (hlt : m.length < m'.length) :
    m ++ "." ++ n = m' ++ "." ++ n' ↔
      ∃ rest, m' = m ++ "." ++ rest ∧ n = rest ++ "." ++ n' := by
  constructor
  · intro h
    have htext := congrArg String.toList h
    rw [toList_qualified, toList_qualified] at htext
    rcases List.append_eq_append_iff.mp htext with ⟨rest, hm, hn⟩ | ⟨rest, hm, -⟩
    · cases rest with
      | nil =>
        rw [List.append_nil, String.toList_inj] at hm
        exact absurd hlt (hm ▸ lt_irrefl _)
      | cons c rest =>
        obtain ⟨rfl, hlocal⟩ := List.cons_eq_cons.mp hn
        refine ⟨.ofList rest, ?_, ?_⟩
        · rw [← String.toList_inj, toList_qualified, String.toList_ofList, hm]
        · rw [← String.toList_inj, toList_qualified, String.toList_ofList]
          exact hlocal
    · have hle : m'.length ≤ m.length := by
        rw [← String.length_toList, ← String.length_toList, hm, List.length_append]
        exact Nat.le_add_right _ _
      exact absurd hlt (Nat.not_lt.mpr hle)
  · rintro ⟨rest, rfl, rfl⟩
    simp only [String.append_assoc]

namespace Store

/-- One store defines a name which a second one, whose module is called like that of the first, a
dot and a rest, defines without the rest. -/
def Overlaps (names : Store → List String) (s s' : Store) : Prop :=
  ∃ rest name, s'.moduleName = s.moduleName ++ "." ++ rest ∧ rest ++ "." ++ name ∈ names s ∧
    name ∈ names s'

variable {names : Store → List String} {s s' : Store}

lemma overlaps_iff : Overlaps names s s' ↔ s.moduleName.length < s'.moduleName.length ∧
    ∃ n ∈ names s, ∃ n' ∈ names s', s.moduleName ++ "." ++ n = s'.moduleName ++ "." ++ n' := by
  constructor
  · rintro ⟨rest, name, hmodule, hname, hname'⟩
    have hlt : s.moduleName.length < s'.moduleName.length := by
      rw [hmodule, String.length_append, String.length_append]
      exact Nat.lt_add_right _ (Nat.lt_add_of_pos_right Nat.one_pos)
    exact ⟨hlt, _, hname, name, hname', (qualified_eq_iff hlt).mpr ⟨rest, hmodule, rfl⟩⟩
  · rintro ⟨hlt, n, hn, n', hn', heq⟩
    obtain ⟨rest, hmodule, rfl⟩ := (qualified_eq_iff hlt).mp heq
    exact ⟨rest, n', hmodule, hn, hn'⟩

instance : Decidable (Overlaps names s s') :=
  decidable_of_iff' _ overlaps_iff

/-- The names of the functions that the store defines. -/
def functionNames (s : Store) : List String := s.functions.values.map fun f => s.shownName f.id

def typeNames (s : Store) : List String := s.types.values.map fun t => s.shownName t.id

lemma length_functionNames (s : Store) : s.functionNames.length = s.functions.size := by
  rw [functionNames, List.length_map, IdMap.values, List.length_map, IdMap.size]

lemma length_typeNames (s : Store) : s.typeNames.length = s.types.size := by
  rw [typeNames, List.length_map, IdMap.values, List.length_map, IdMap.size]

lemma mergedFunctionNames_eq_map (hs : s.WellFormed) :
    s.mergedFunctionNames = s.functionNames.map s.qualify := by
  rw [mergedFunctionNames_eq hs, functionNames, List.map_map]
  rfl

lemma mergedTypeNames_eq_map (hs : s.WellFormed) :
    s.mergedTypeNames = s.typeNames.map s.qualify := by
  rw [mergedTypeNames_eq hs, typeNames, List.map_map]
  rfl

lemma qualify_of_not_isCombined (h : s.isCombined = false) (name : String) :
    s.qualify name = s.moduleName ++ "." ++ name := by
  rw [qualify, h]
  rfl

end Store

/-! ### Qualified names that are all different -/

variable {inputs : List Store}

/-- The qualified names of several modules are different if and only if no two modules overlap. -/
lemma nodup_flatMap_qualify_iff (names : Store → List String)
    (hmodules : (inputs.map (·.moduleName)).Nodup)
    (hcombined : ∀ s ∈ inputs, s.isCombined = false) (hnames : ∀ s ∈ inputs, (names s).Nodup) :
    (inputs.flatMap fun s => (names s).map s.qualify).Nodup ↔
      ∀ s ∈ inputs, ∀ s' ∈ inputs, ¬ Store.Overlaps names s s' := by
  have heach : ∀ s ∈ inputs, ((names s).map s.qualify).Nodup :=
    fun s hs => (hnames s hs).map s.qualify_injective
  rw [List.nodup_flatMap]
  constructor
  · rintro ⟨-, hdisjoint⟩ s hs s' hs' hoverlaps
    obtain ⟨hlt, n, hn, n', hn', heq⟩ := Store.overlaps_iff.mp hoverlaps
    have hne : s ≠ s' := by
      rintro rfl
      exact lt_irrefl _ hlt
    rw [← Store.qualify_of_not_isCombined (hcombined s hs),
      ← Store.qualify_of_not_isCombined (hcombined s' hs')] at heq
    have hsymm : Std.Symm (Function.onFun List.Disjoint fun s => (names s).map s.qualify) :=
      ⟨fun _ _ h name hname hname' => h hname' hname⟩
    exact hdisjoint.forall hs hs' hne (List.mem_map_of_mem hn) (heq ▸ List.mem_map_of_mem hn')
  · intro hnot
    refine ⟨heach, hmodules.of_map.pairwise_of_forall_ne ?_⟩
    intro s hs s' hs' hne name hname hname'
    obtain ⟨n, hn, rfl⟩ := List.mem_map.mp hname
    obtain ⟨n', hn', heq⟩ := List.mem_map.mp hname'
    rw [Store.qualify_of_not_isCombined (hcombined s hs),
      Store.qualify_of_not_isCombined (hcombined s' hs')] at heq
    have hmodule : s.moduleName ≠ s'.moduleName :=
      fun h => hne (List.inj_on_of_nodup_map hmodules hs hs' h)
    rcases lt_trichotomy s.moduleName.length s'.moduleName.length with hlt | hlen | hlt
    · exact hnot s hs s' hs' (Store.overlaps_iff.mpr ⟨hlt, n, hn, n', hn', heq.symm⟩)
    · have htext := congrArg String.toList heq
      rw [toList_qualified, toList_qualified] at htext
      rw [← String.length_toList, ← String.length_toList] at hlen
      exact hmodule (String.toList_inj.mp (List.append_inj_left htext hlen.symm).symm)
    · exact hnot s' hs' s hs (Store.overlaps_iff.mpr ⟨hlt, n', hn', n, hn, heq⟩)

/-! ### Definitions that are counted and reported -/

/-- A store that has each qualified name of the inputs once has as many as they have together
exactly if these are all different. -/
lemma length_eq_sum_iff {names merged : Store → List String} {m : Store}
    (hqualify : ∀ s, s = m ∨ s ∈ inputs → merged s = (names s).map s.qualify)
    (hnodup : (merged m).Nodup) (hmem : ∀ name, name ∈ merged m ↔ name ∈ inputs.flatMap merged) :
    (names m).length = (inputs.map fun s => (names s).length).sum ↔
      (inputs.flatMap merged).Nodup := by
  have hsum : (inputs.map fun s => (names s).length).sum = (inputs.flatMap merged).length := by
    rw [List.length_flatMap]
    congr 1
    apply List.map_congr_left
    intro s hs
    rw [hqualify s (.inr hs), List.length_map]
  have hlen : (names m).length = (merged m).length := by
    rw [hqualify m (.inl rfl), List.length_map]
  rw [hsum, hlen]
  constructor
  · intro heq
    have hsub := List.subperm_of_subset hnodup fun name => (hmem name).mp
    exact (hsub.perm_of_length_le heq.ge).nodup_iff.mp hnodup
  · intro hall
    exact ((List.perm_ext_iff_of_nodup hnodup hall).mpr hmem).length_eq

namespace Contribution

/-- What is left out are calls, so no definition is reported with them. -/
lemma duplicateDefinition_not_mem_dropped (functions : List String) (inputs : List Store)
    (name module : String) :
    .duplicateDefinition name module ∉ (ofList (ofInput functions) inputs).dropped := by
  intro hd
  obtain ⟨s, -, hd⟩ := List.mem_flatMap.mp hd
  rcases List.mem_append.mp hd with hd | hd
  · obtain ⟨f, -, hd⟩ := List.mem_flatMap.mp hd
    obtain ⟨call, -, hd⟩ := List.mem_map.mp hd
    cases hd
  · obtain ⟨t, -, hd⟩ := List.mem_flatMap.mp hd
    cases hd

/-- Repetitions are reported unless all merged names differ. -/
lemma not_reports_duplicateDefinition_iff (h : ∀ s ∈ inputs, s.WellFormed) :
    (∀ name module, ¬ (ofInputs inputs).Reports (.duplicateDefinition name module)) ↔
      (inputs.flatMap Store.mergedFunctionNames).Nodup ∧
        (inputs.flatMap Store.mergedTypeNames).Nodup := by
  rw [← map_name_functions_ofList (inputs.flatMap Store.mergedFunctionNames) h,
    ← map_name_types_ofList (inputs.flatMap Store.mergedFunctionNames) h,
    Definition.nodup_iff_not_repeats, Definition.nodup_iff_not_repeats]
  simp only [Reports, ofInputs, duplicateDefinition_not_mem_dropped, false_or, not_or, forall_and]

end Contribution

/-- A merge has every definition of its inputs, each function with its own flags and readable name,
and reports no definition as a repetition. -/
structure KeepsDefinitions (inputs : List Store) (m : Merged) : Prop where
  functionCount : m.store.functions.size = (inputs.map (·.functions.size)).sum
  typeCount : m.store.types.size = (inputs.map (·.types.size)).sum
  functions : ∀ s ∈ inputs, ∀ f ∈ s.functions.values, ∃ g,
    m.store.functionNamed? (s.moduleName ++ "." ++ s.shownName f.id) = some g ∧
      g.flags = f.flags ∧ g.debugName = f.debugName
  types : ∀ s ∈ inputs, ∀ t ∈ s.types.values,
    (m.store.typeNamed? (s.moduleName ++ "." ++ s.shownName t.id)).isSome
  unreported : ∀ name module, .duplicateDefinition name module ∉ m.diagnostics

namespace Merged

section Counts

variable (h : ∀ s ∈ inputs, s.WellFormed)
  (hsize : (combine inputs).store.symbols.size < 2 ^ 32)

include h

lemma wellFormed_of_eq_or_mem {s : Store} (hs : s = (combine inputs).store ∨ s ∈ inputs) :
    s.WellFormed := by
  rcases hs with rfl | hs
  · exact wellFormed_combine inputs
  · exact h s hs

include hsize

/-- A union has as many functions as its inputs exactly if their merged names differ. -/
lemma functionCount_combine_iff :
    (combine inputs).store.functions.size = (inputs.map (·.functions.size)).sum ↔
      (inputs.flatMap Store.mergedFunctionNames).Nodup := by
  have hm : (combine inputs).store.moduleName = combinedName := Combination.moduleName_ofInputs h
  have hs := faithful_combine hsize
  simp only [← Store.length_functionNames]
  refine length_eq_sum_iff
    (fun s hs => Store.mergedFunctionNames_eq_map (wellFormed_of_eq_or_mem h hs))
    (Store.nodup_mergedFunctionNames hs.wellFormed) ?_
  intro name
  rw [Contribution.mem_mergedFunctionNames_of_combined hm hs,
    (continues_combine h hsize).functions]
  exact Contribution.isSome_functions_program_iff _ h

lemma typeCount_combine_iff :
    (combine inputs).store.types.size = (inputs.map (·.types.size)).sum ↔
      (inputs.flatMap Store.mergedTypeNames).Nodup := by
  have hm : (combine inputs).store.moduleName = combinedName := Combination.moduleName_ofInputs h
  have hs := faithful_combine hsize
  simp only [← Store.length_typeNames]
  refine length_eq_sum_iff
    (fun s hs => Store.mergedTypeNames_eq_map (wellFormed_of_eq_or_mem h hs))
    (Store.nodup_mergedTypeNames hs.wellFormed) ?_
  intro name
  rw [Contribution.mem_mergedTypeNames_of_combined hm hs,
    (continues_combine h hsize).isSome_types_iff]
  exact Contribution.isSome_types_program_iff _ h

lemma unreported_combine_iff :
    (∀ name module, .duplicateDefinition name module ∉ (combine inputs).diagnostics) ↔
      (inputs.flatMap Store.mergedFunctionNames).Nodup ∧
        (inputs.flatMap Store.mergedTypeNames).Nodup := by
  rw [← Contribution.not_reports_duplicateDefinition_iff h]
  refine forall₂_congr fun name module => not_congr ?_
  refine (Combination.mem_diagnostics_ofInputs h hsize).trans (or_iff_left ?_)
  rintro ⟨type, t, t', -, -, -, heq⟩
  cases heq

/-- When all merged names differ, every function is found under its own. -/
lemma functionNamed?_combine (hnodup : (inputs.flatMap Store.mergedFunctionNames).Nodup) {s : Store}
    (hs : s ∈ inputs) {f : FunctionSummary} (hf : f ∈ s.functions.values) : ∃ g,
      (combine inputs).store.functionNamed? (s.definitionName f.id) = some g ∧
        g.flags = f.flags ∧ g.debugName = f.debugName := by
  rw [← Contribution.map_name_functions_ofList (inputs.flatMap Store.mergedFunctionNames) h]
    at hnodup
  have hfirst : (Contribution.ofInputs inputs).program.functions (s.definitionName f.id) =
      some (s.mergedFunction (inputs.flatMap Store.mergedFunctionNames) f) := by
    refine (Definition.first_eq_some_iff hnodup).mpr
      ⟨⟨s.moduleName, _, _⟩, List.mem_flatMap.mpr ⟨s, hs, ?_⟩, rfl, rfl⟩
    rw [Contribution.functions_ofInput]
    exact List.mem_map.mpr ⟨f, hf, rfl⟩
  rw [← (continues_combine h hsize).functions] at hfirst
  obtain ⟨g, hg, heq⟩ := Option.map_eq_some_iff.mp hfirst
  exact ⟨g, hg, congrArg (·.flags) heq, congrArg (·.debugName) heq⟩

end Counts

/-- A union of stores of different modules, none of them merged before, keeps every definition if
and only if no store overlaps with another one. -/
theorem keepsDefinitions_combine_iff (hinputs : ∀ s ∈ inputs, s.Built)
    (hmodules : (inputs.map (·.moduleName)).Nodup)
    (hcombined : ∀ s ∈ inputs, s.isCombined = false)
    (hsize : (combine inputs).store.symbols.size < 2 ^ 32) :
    KeepsDefinitions inputs (combine inputs) ↔ ∀ s ∈ inputs, ∀ s' ∈ inputs,
      ¬ Store.Overlaps Store.functionNames s s' ∧ ¬ Store.Overlaps Store.typeNames s s' := by
  have h : ∀ s ∈ inputs, s.WellFormed := fun s hs => (hinputs s hs).wellFormed
  have hfunctions := nodup_flatMap_qualify_iff Store.functionNames hmodules hcombined
    fun s hs => (h s hs).nodup_functionNames
  have htypes := nodup_flatMap_qualify_iff Store.typeNames hmodules hcombined
    fun s hs => (h s hs).nodup_typeNames
  rw [← List.flatMap_congr fun s hs => Store.mergedFunctionNames_eq_map (h s hs)] at hfunctions
  rw [← List.flatMap_congr fun s hs => Store.mergedTypeNames_eq_map (h s hs)] at htypes
  simp only [forall_and]
  rw [← hfunctions, ← htypes]
  constructor
  · intro hkeeps
    exact (unreported_combine_iff h hsize).mp hkeeps.unreported
  · intro hnodup
    refine ⟨(functionCount_combine_iff h hsize).mpr hnodup.1,
      (typeCount_combine_iff h hsize).mpr hnodup.2, ?_, ?_,
      (unreported_combine_iff h hsize).mpr hnodup⟩
    · intro s hs f hf
      rw [← Store.qualify_of_not_isCombined (hcombined s hs)]
      exact functionNamed?_combine h hsize hnodup.1 hs hf
    · intro s hs t ht
      rw [← Store.qualify_of_not_isCombined (hcombined s hs), Store.isSome_typeNamed?_iff,
        (continues_combine h hsize).isSome_types_iff]
      exact (Contribution.isSome_types_program_iff _ h).mpr
        ((mem_flatMap_mergedTypeNames h).mpr ⟨s, hs, t, ht, rfl⟩)

/-- A module that is called like another one, a dot and more, without a name in common. -/
theorem keepsDefinitions_combine_nested :
    let outer := Store.performAll "net"
      [.build (.recordFunction "http.get" { preserved := true }),
        .build (.recordType "http.Client" none ["http.get"])]
    let inner := Store.performAll "net.http"
      [.build (.recordFunction "put" {}), .build (.setDebugName ⟨1⟩ "put(_:)")]
    KeepsDefinitions [outer, inner] (combine [outer, inner]) ∧
      (combine [outer, inner]).store.functions.size = 2 := by
  intro outer inner
  have houter : outer.Built := ⟨⟨_, _, rfl⟩, by decide +kernel⟩
  have hinner : inner.Built := ⟨⟨_, _, rfl⟩, by decide +kernel⟩
  refine ⟨(keepsDefinitions_combine_iff ?_ ?_ ?_ ?_).mpr ?_, ?_⟩
  · exact List.forall_mem_cons.mpr ⟨houter, List.forall_mem_singleton.mpr hinner⟩
  all_goals decide +kernel

/-- With a name in common the second definition is lost, though no two modules have one name. -/
theorem not_keepsDefinitions_combine_nested :
    let outer := Store.performAll "net" [.build (.recordFunction "http.get" { preserved := true })]
    let inner := Store.performAll "net.http" [.build (.recordFunction "get" {})]
    (outer.Built ∧ inner.Built ∧ outer.moduleName ≠ inner.moduleName ∧
      outer.isCombined = false ∧ inner.isCombined = false) ∧
    ¬ KeepsDefinitions [outer, inner] (combine [outer, inner]) := by
  intro outer inner
  have houter : outer.Built := ⟨⟨_, _, rfl⟩, by decide +kernel⟩
  have hinner : inner.Built := ⟨⟨_, _, rfl⟩, by decide +kernel⟩
  refine ⟨⟨houter, hinner, by decide +kernel⟩, fun hkeeps => ?_⟩
  exact absurd hkeeps.functionCount (by decide +kernel)

end Merged

end LinkSummary
