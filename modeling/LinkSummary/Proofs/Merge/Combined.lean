import LinkSummary.Proofs.Merge.Growth

/-!
# Merged stores as inputs

The names of a store that is itself the result of a merge are kept. So what it contributes to a
union is by name just what it tells, as long as all its calls lead to functions of the union.
-/

namespace LinkSummary

namespace Store

variable {m : Store} {id : SymbolId} {t : TypeSummary}

lemma qualify_of_combined (hm : m.moduleName = combinedName) (name : String) :
    m.qualify name = name := by
  simp [qualify, isCombined, hm]

lemma mergedReference_of_combined (hm : m.moduleName = combinedName) (name : String) :
    m.mergedReference name = name := by
  simp [mergedReference, qualify_of_combined hm]

lemma definitionName_of_combined (hm : m.moduleName = combinedName) (id : SymbolId) :
    m.definitionName id = m.shownName id :=
  qualify_of_combined hm _

lemma referenceName_of_combined (hm : m.moduleName = combinedName) :
    m.referenceName = m.shownName :=
  funext fun _ => mergedReference_of_combined hm _

lemma mergedFunction_of_combined (hm : m.moduleName = combinedName) (functions : List String)
    (f : FunctionSummary) :
    m.mergedFunction functions f = (m.namedFunction f).restrict functions := by
  have hcall : m.mergedCall = m.namedCall := by
    funext edge
    rw [mergedCall, namedCall, referenceName_of_combined hm]
  rw [mergedFunction, keptCalls, hcall]
  rfl

/-- Entries are named by the pairs of the names they show. -/
lemma namesPair_of_contains {entries : List (SymbolId × SymbolId)}
    (h : ∀ entry ∈ entries, m.symbols.contains entry.1 = true ∧ m.symbols.contains entry.2 = true) :
    List.Forall₂ m.NamesPair entries
      (entries.map fun entry => (m.shownName entry.1, m.shownName entry.2)) := by
  induction entries with
  | nil => exact .nil
  | cons entry entries ih =>
    rw [List.forall_mem_cons] at h
    exact .cons ⟨fun _ => get?_shownName h.1.1, fun _ => get?_shownName h.1.2⟩ (ih h.2)

lemma mergedTables_of_combined (hm : m.moduleName = combinedName) (hs : m.Faithful)
    (ht : m.type? id = some t) : m.mergedTables t = m.namedTables t := by
  have hpairs : List.Forall₂ m.NamesPair t.witnesses.entries
      (m.mergedWitnesses t.witnesses.entries) := by
    rw [mergedWitnesses, referenceName_of_combined hm]
    exact namesPair_of_contains fun entry hentry =>
      hs.wellFormed.contains_witness ht (IdMap.mem_entries_iff.mp hentry)
  have hwitnesses := namedMap_ofList hs.size_lt hpairs
  rw [IdMap.ofList_entries] at hwitnesses
  rw [mergedTables, namedTables, referenceName_of_combined hm, Program.Tables.mk.injEq]
  exact ⟨rfl, rfl, hwitnesses.symm⟩

lemma shownName_mem_names (h : m.symbols.contains id = true) :
    m.shownName id ∈ m.symbols.names :=
  List.mem_of_getElem? (SymbolTable.get?_eq_some_iff.mp (get?_shownName h)).2

end Store

namespace Contribution

variable {m : Store} {functions : List String} {name : String}

lemma functions_program_of_combined (hm : m.moduleName = combinedName) (hs : m.Faithful)
    (functions : List String) (name : String) :
    (ofInput functions m).program.functions name =
      (m.named.functions name).map (.restrict functions) := by
  apply Option.ext
  intro F
  rw [functions_program_ofInput_eq_some_iff hs.wellFormed, Option.map_eq_some_iff]
  simp only [Store.definitionName_of_combined hm, Store.mergedFunction_of_combined hm]
  constructor
  · rintro ⟨f, hf, rfl, rfl⟩
    obtain ⟨id, hf⟩ := IdMap.mem_values_iff.mp hf
    have hid : f.id = id := (hs.wellFormed.functions hf).id_eq
    exact ⟨_, hid ▸ hs.functions_named_eq hf, rfl⟩
  · rintro ⟨F', hF', rfl⟩
    obtain ⟨id, f, hlookup, hf, rfl⟩ := Store.functions_named_eq_some_iff.mp hF'
    have hid : f.id = id := (hs.wellFormed.functions hf).id_eq
    exact ⟨f, IdMap.mem_values_iff.mpr ⟨id, hf⟩,
      hid ▸ Store.shownName_of_lookup hs.size_lt hlookup, rfl⟩

lemma types_program_of_combined (hm : m.moduleName = combinedName) (hs : m.Faithful)
    (functions : List String) : (ofInput functions m).program.types = m.named.types := by
  funext name
  apply Option.ext
  intro T
  rw [types_program_ofInput_eq_some_iff hs.wellFormed]
  simp only [Store.definitionName_of_combined hm]
  constructor
  · rintro ⟨t, ht, rfl, rfl⟩
    obtain ⟨id, ht⟩ := IdMap.mem_values_iff.mp ht
    have hid : t.id = id := (hs.wellFormed.types ht).id_eq
    rw [Store.mergedTables_of_combined hm hs ht, hid]
    exact hs.types_named_eq ht
  · intro hT
    obtain ⟨id, t, hlookup, ht, rfl⟩ := Store.types_named_eq_some_iff.mp hT
    have hid : t.id = id := (hs.wellFormed.types ht).id_eq
    exact ⟨t, IdMap.mem_values_iff.mpr ⟨id, ht⟩,
      hid ▸ Store.shownName_of_lookup hs.size_lt hlookup, Store.mergedTables_of_combined hm hs ht⟩

/-- A merged store contributes what it says, if all its calls are kept. -/
theorem program_of_combined (functions : List String) (hm : m.moduleName = combinedName)
    (hs : m.Faithful) (hkept : ∀ {name f}, m.named.functions name = some f → ∀ call ∈ f.calls,
      call.IsKept functions) : (ofInput functions m).program = m.named := by
  apply Program.ext
  · funext name
    rw [functions_program_of_combined hm hs]
    cases hf : m.named.functions name with
    | none => rfl
    | some f =>
      have hcalls : f.calls.filter (·.IsKept functions) = f.calls :=
        List.filter_eq_self.mpr fun call hcall => by simpa using hkept hf call hcall
      rw [Option.map_some, Program.Function.restrict, hcalls]
  · exact types_program_of_combined hm hs functions

lemma mem_mergedFunctionNames_of_combined (hm : m.moduleName = combinedName) (hs : m.Faithful) :
    name ∈ m.mergedFunctionNames ↔ (m.named.functions name).isSome := by
  rw [← map_name_functions_ofInput [] hs.wellFormed, ← Definition.isSome_first_iff]
  show ((ofInput [] m).program.functions name).isSome ↔ _
  rw [functions_program_of_combined hm hs, Option.isSome_map]

lemma mem_mergedTypeNames_of_combined (hm : m.moduleName = combinedName) (hs : m.Faithful) :
    name ∈ m.mergedTypeNames ↔ (m.named.types name).isSome := by
  rw [← map_name_types_ofInput [] hs.wellFormed, ← Definition.isSome_first_iff,
    ← types_program_of_combined hm hs []]
  rfl

lemma symbols_subset_of_combined (hm : m.moduleName = combinedName) (hs : m.WellFormed)
    (functions : List String) : (ofInput functions m).symbols ⊆ m.symbols.names := by
  intro name hname
  rcases List.mem_append.mp hname with hname | hname
  · obtain ⟨f, hf, hname⟩ := List.mem_flatMap.mp hname
    obtain ⟨id, hf⟩ := IdMap.mem_values_iff.mp hf
    have hid : f.id = id := (hs.functions hf).id_eq
    rcases List.mem_cons.mp hname with rfl | hname
    · rw [Store.definitionName_of_combined hm, hid]
      exact Store.shownName_mem_names (hs.contains_function hf)
    · obtain ⟨call, hcall, rfl⟩ := List.mem_map.mp hname
      obtain ⟨edge, hedge, rfl⟩ := List.mem_map.mp (List.mem_of_mem_filter hcall)
      rw [Store.callee_mergedCall, Store.referenceName_of_combined hm]
      exact Store.shownName_mem_names (hs.contains_callee hf hedge)
  · obtain ⟨t, ht, hname⟩ := List.mem_flatMap.mp hname
    obtain ⟨id, ht⟩ := IdMap.mem_values_iff.mp ht
    have hid : t.id = id := (hs.types ht).id_eq
    rcases List.mem_cons.mp hname with rfl | hname
    · rw [Store.definitionName_of_combined hm, hid]
      exact Store.shownName_mem_names (hs.contains_type ht)
    · obtain ⟨x, hx, rfl⟩ := List.mem_map.mp hname
      rw [Store.referenceName_of_combined hm]
      exact Store.shownName_mem_names ((hs.types ht).interned x (List.mem_cons_of_mem _ hx))

end Contribution

end LinkSummary
