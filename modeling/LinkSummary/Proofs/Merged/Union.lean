import LinkSummary.Proofs.Merge.Named
import LinkSummary.Proofs.Merged
import LinkSummary.Proofs.Store.Operation

/-!
# A merge is the union of its inputs

Before liveness is spread, the store of a merge has a function or type under each merged name that
an input defines. It comes from the first of these inputs, with all names in it replaced by their
merged names and the calls left out that lead to no function of any input. Slots are inherited at
the end of the tables only.
-/

namespace LinkSummary

variable {inputs : List Store} {union m : Store}

/-- A store is the union of some inputs; `union` is the store before slots are inherited. -/
structure IsUnionOf (inputs : List Store) (union m : Store) : Prop where
  inherited : m = union.inheritMissingSlots.1
  faithful : m.Faithful
  moduleName : m.moduleName = combinedName
  livenessComputed : m.livenessComputed = false
  functionNames : ∀ name, (m.functionNamed? name).isSome ↔
    ∃ s ∈ inputs, ∃ f ∈ s.functions.values, name = s.definitionName f.id
  typeNames : ∀ name, (m.typeNamed? name).isSome ↔
    ∃ s ∈ inputs, ∃ t ∈ s.types.values, name = s.definitionName t.id
  /-- The function of the first input that defines the name. -/
  functions : ∀ {before s after}, inputs = before ++ s :: after → ∀ f ∈ s.functions.values,
    s.definitionName f.id ∉ before.flatMap Store.mergedFunctionNames →
      m.named.functions (s.definitionName f.id) = some
        { flags := f.flags
          debugName := f.debugName
          calls := (f.calls.map s.mergedCall).filter fun call =>
            call.kind = .witness ∨ call.callee ∈ inputs.flatMap Store.mergedFunctionNames }
  /-- The type of the first input that defines the name. -/
  types : ∀ {before s after}, inputs = before ++ s :: after → ∀ t ∈ s.types.values,
    s.definitionName t.id ∉ before.flatMap Store.mergedTypeNames →
      union.named.types (s.definitionName t.id) = some (s.mergedTables t) ∧
        ∃ rest, m.named.types (s.definitionName t.id) = some
          { s.mergedTables t with slots := t.slots.map s.referenceName ++ rest }

lemma Store.isSome_functionNamed?_iff {s : Store} {name : String} :
    (s.functionNamed? name).isSome ↔ (s.named.functions name).isSome := by
  simp [named]

lemma Store.isSome_typeNamed?_iff {s : Store} {name : String} :
    (s.typeNamed? name).isSome ↔ (s.named.types name).isSome := by
  simp [named]

namespace Merged

lemma mem_flatMap_mergedFunctionNames (h : ∀ s ∈ inputs, s.WellFormed) {name : String} :
    name ∈ inputs.flatMap Store.mergedFunctionNames ↔
      ∃ s ∈ inputs, ∃ f ∈ s.functions.values, name = s.definitionName f.id := by
  rw [List.mem_flatMap]
  refine exists_congr fun s => and_congr_right fun hs => ?_
  rw [Store.mergedFunctionNames_eq (h s hs), List.mem_map]
  simp only [eq_comm]

lemma mem_flatMap_mergedTypeNames (h : ∀ s ∈ inputs, s.WellFormed) {name : String} :
    name ∈ inputs.flatMap Store.mergedTypeNames ↔
      ∃ s ∈ inputs, ∃ t ∈ s.types.values, name = s.definitionName t.id := by
  rw [List.mem_flatMap]
  refine exists_congr fun s => and_congr_right fun hs => ?_
  rw [Store.mergedTypeNames_eq (h s hs), List.mem_map]
  simp only [eq_comm]

/-- The store of a merge of built stores is their union by name. -/
theorem isUnionOf_combine (hinputs : ∀ s ∈ inputs, s.Built)
    (hsize : (combine inputs).store.symbols.size < 2 ^ 32) :
    IsUnionOf inputs (Combination.collect inputs).store (combine inputs).store := by
  have h : ∀ s ∈ inputs, s.WellFormed := fun s hs => (hinputs s hs).wellFormed
  have hcontinues := Combination.continues_ofInputs h hsize
  have hagrees := Combination.agrees_collect h hsize
  refine ⟨Combination.store_ofInputs inputs, Combination.faithful_ofInputs hsize,
    Combination.moduleName_ofInputs h, Combination.livenessComputed_ofInputs h, ?_, ?_, ?_, ?_⟩
  · intro name
    rw [Store.isSome_functionNamed?_iff, ← mem_flatMap_mergedFunctionNames h]
    show ((Combination.ofInputs inputs).store.named.functions name).isSome ↔ _
    rw [hcontinues.functions]
    exact Contribution.isSome_functions_program_iff _ h
  · intro name
    rw [Store.isSome_typeNamed?_iff, ← mem_flatMap_mergedTypeNames h]
    show ((Combination.ofInputs inputs).store.named.types name).isSome ↔ _
    rw [hcontinues.isSome_types_iff]
    exact Contribution.isSome_types_program_iff _ h
  · rintro before s after rfl f hf hfirst
    show (Combination.ofInputs _).store.named.functions _ = _
    rw [hcontinues.functions]
    exact Contribution.functions_program_ofList _ h hf hfirst
  · rintro before s after rfl t ht hfirst
    have htypes := Contribution.types_program_ofList
      ((before ++ s :: after).flatMap Store.mergedFunctionNames) h ht hfirst
    refine ⟨?_, ?_⟩
    · rw [hagrees.named]
      exact htypes
    · exact hcontinues.types_some _ _ htypes

/-- Of the calls of a function the one to another input is kept, the one to nothing is not. -/
theorem isUnionOf_combine_app_and_library :
    let app := Store.performAll "app"
      [.build (.recordFunction "main" { preserved := true }),
        .build (.recordCall ⟨1⟩ "lib.f" .direct false), .build (.recordCall ⟨1⟩ "puts" .direct false),
        .build (.recordType "C" (some "lib.B") ["main"])]
    let library := Store.performAll "lib"
      [.build (.recordFunction "f" {}), .build (.recordType "B" none ["f", "f"])]
    IsUnionOf [app, library] (Combination.collect [app, library]).store
        (combine [app, library]).store ∧
      (combine [app, library]).store.named.functions "app.main" =
        some { flags := { preserved := true }, calls := [{ callee := "lib.f", kind := .direct }] } := by
  intro app library
  have happ : app.Built := ⟨⟨_, _, rfl⟩, by decide +kernel⟩
  have hlibrary : library.Built := ⟨⟨_, _, rfl⟩, by decide +kernel⟩
  have hunion := @isUnionOf_combine [app, library]
    (List.forall_mem_cons.mpr ⟨happ, List.forall_mem_singleton.mpr hlibrary⟩) (by decide +kernel)
  refine ⟨hunion, ?_⟩
  decide +kernel

end Merged

end LinkSummary
