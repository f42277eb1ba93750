import LinkSummary.Proofs.Merge.Named
import LinkSummary.Proofs.Program.Extension

/-!
# Contributions to larger unions

What an input contributes depends on the other inputs only through the functions that they define:
with more of these its functions have more calls, and all else stays. So a union of more inputs
contains what a union of fewer says, apart from calls that were left out.
-/

namespace LinkSummary

variable {functions functions' : List String} {inputs inputs' : List Store} {s : Store}

/-! ### Calls to more functions -/

lemma Program.Call.IsKept.mono {call : Program.Call String} (hsub : functions ⊆ functions')
    (h : call.IsKept functions) : call.IsKept functions' :=
  h.imp_right fun hmem => hsub hmem

/-- The function with the calls that are kept. -/
def Program.Function.restrict (functions : List String) (f : Program.Function String) :
    Program.Function String :=
  { f with calls := f.calls.filter (·.IsKept functions) }

lemma Store.restrict_mergedFunction (hsub : functions ⊆ functions') (s : Store)
    (f : FunctionSummary) :
    (s.mergedFunction functions' f).restrict functions = s.mergedFunction functions f := by
  have hcalls : (s.keptCalls functions' f.calls).filter (·.IsKept functions) =
      s.keptCalls functions f.calls := by
    rw [keptCalls, keptCalls, List.filter_filter]
    apply List.filter_congr
    intro call _
    by_cases hkept : call.IsKept functions
    · simp [hkept, hkept.mono hsub]
    · simp [hkept]
  rw [mergedFunction, mergedFunction, Program.Function.restrict, hcalls]

namespace Definition

variable {α β : Type}

def map (g : α → β) (d : Definition α) : Definition β := ⟨d.module, d.name, g d.value⟩

lemma first_map (g : α → β) (ds : List (Definition α)) (name : String) :
    first (ds.map (map g)) name = (first ds name).map g := by
  induction ds with
  | nil => rfl
  | cons d ds ih =>
    simp only [first] at ih ⊢
    by_cases h : d.name = name
    · simp [map, h]
    · rw [List.map_cons, List.find?_cons_of_neg (by simpa [map] using h),
        List.find?_cons_of_neg (by simpa using h), ih]

end Definition

namespace Contribution

lemma functions_ofInput_eq_map (hsub : functions ⊆ functions') (s : Store) :
    (ofInput functions s).functions =
      (ofInput functions' s).functions.map (.map (.restrict functions)) := by
  rw [functions_ofInput, functions_ofInput, List.map_map]
  apply List.map_congr_left
  intro f _
  rw [Function.comp_apply, Definition.map, Store.restrict_mergedFunction hsub]

/-- Apart from calls, the functions of a list of inputs are told without the other inputs. -/
lemma functions_program_eq_map (hsub : functions ⊆ functions') (inputs : List Store)
    (name : String) : (ofList (ofInput functions) inputs).program.functions name =
      ((ofList (ofInput functions') inputs).program.functions name).map (.restrict functions) := by
  have hmap : (ofList (ofInput functions) inputs).functions =
      (ofList (ofInput functions') inputs).functions.map (.map (.restrict functions)) := by
    rw [ofList, ofList, List.map_flatMap]
    exact List.flatMap_congr fun s _ => functions_ofInput_eq_map hsub s
  show Definition.first (ofList (ofInput functions) inputs).functions name = _
  rw [hmap, Definition.first_map]
  rfl

lemma types_ofList_eq (functions functions' : List String) (inputs : List Store) :
    (ofList (ofInput functions) inputs).types = (ofList (ofInput functions') inputs).types := by
  rw [ofList, ofList]
  exact List.flatMap_congr fun s _ => (types_ofInput functions s).trans
    (types_ofInput functions' s).symm

/-- With more functions about, some of the calls left out are kept. -/
lemma within_ofList (hsub : functions ⊆ functions') (inputs : List Store) :
    (ofList (ofInput functions) inputs).program.Within
      (ofList (ofInput functions') inputs).program := by
  constructor
  · intro name f hf
    rw [functions_program_eq_map hsub] at hf
    obtain ⟨f', hf', rfl⟩ := Option.map_eq_some_iff.mp hf
    exact ⟨f', hf', rfl, List.filter_sublist⟩
  · intro name t ht
    rw [program, types_ofList_eq functions' functions]
    exact ht

lemma isKept_of_program_ofList {name : String} {f : Program.Function String}
    (hf : (ofList (ofInput functions) inputs).program.functions name = some f) :
    ∀ call ∈ f.calls, call.IsKept functions := by
  obtain ⟨d, hd, -, rfl⟩ := Definition.exists_of_first hf
  obtain ⟨s, -, hd⟩ := List.mem_flatMap.mp hd
  rw [functions_ofInput] at hd
  obtain ⟨g, -, rfl⟩ := List.mem_map.mp hd
  intro call hcall
  simpa using List.of_mem_filter hcall

/-! ### Unions of lists -/

variable {k k' : Contribution}

lemma program_append : (k ++ k').program = k.program.orElse k'.program := by
  apply Program.ext
  · exact funext fun _ => Definition.first_append
  · exact funext fun _ => Definition.first_append

lemma ofList_append {α : Type} (g : α → Contribution) (xs ys : List α) :
    ofList g (xs ++ ys) = ofList g xs ++ ofList g ys := by
  ext1 <;> simp [ofList]

lemma ofList_congr {α : Type} {g g' : α → Contribution} {xs : List α}
    (h : ∀ x ∈ xs, g x = g' x) : ofList g xs = ofList g' xs := by
  rw [ofList, ofList, Contribution.mk.injEq]
  refine ⟨?_, ?_, ?_, ?_⟩
  all_goals exact List.flatMap_congr fun x hx => by rw [h x hx]

/-- A contribution depends on which of the input's own calls are kept. -/
lemma ofInput_congr (h : ∀ f ∈ s.functions.values, ∀ edge ∈ f.calls,
      (s.mergedCall edge).IsKept functions ↔ (s.mergedCall edge).IsKept functions') :
    ofInput functions s = ofInput functions' s := by
  have hfunction : ∀ f ∈ s.functions.values,
      ofFunction functions s f = ofFunction functions' s f := by
    intro f hf
    have hkept : s.keptCalls functions f.calls = s.keptCalls functions' f.calls := by
      apply List.filter_congr
      intro call hcall
      obtain ⟨edge, hedge, rfl⟩ := List.mem_map.mp hcall
      exact decide_eq_decide.mpr (h f hf edge hedge)
    have hdropped : s.droppedCalls functions (s.definitionName f.id) f.calls =
        s.droppedCalls functions' (s.definitionName f.id) f.calls := by
      rw [Store.droppedCalls, Store.droppedCalls]
      congr 1
      apply List.filter_congr
      intro call hcall
      obtain ⟨edge, hedge, rfl⟩ := List.mem_map.mp hcall
      exact decide_eq_decide.mpr (not_congr (h f hf edge hedge))
    rw [ofFunction, ofFunction, Store.mergedFunction, Store.mergedFunction, hkept, hdropped]
  rw [ofInput, ofInput, ofList_congr hfunction]

lemma ofInput_congr_of_mem_iff (h : ∀ name, name ∈ functions ↔ name ∈ functions') (s : Store) :
    ofInput functions s = ofInput functions' s :=
  ofInput_congr fun _ _ _ _ => or_congr_right (h _)

lemma mem_dropped_ofList {f : FunctionSummary} {edge : CallEdge} (hs : s ∈ inputs)
    (hf : f ∈ s.functions.values) (hedge : edge ∈ f.calls)
    (hnot : ¬ (s.mergedCall edge).IsKept functions) :
    .unresolvedEdge (s.definitionName f.id) (s.referenceName edge.callee) edge.kind
      .undefinedCallee ∈ (ofList (ofInput functions) inputs).dropped := by
  refine List.mem_flatMap.mpr ⟨s, hs, List.mem_append_left _ (List.mem_flatMap.mpr ⟨f, hf, ?_⟩)⟩
  refine List.mem_map.mpr ⟨s.mergedCall edge, List.mem_filter.mpr ⟨?_, by simpa using hnot⟩, rfl⟩
  exact List.mem_map_of_mem hedge

/-! ### Names -/

lemma symbols_ofInput_subset (hsub : functions ⊆ functions') (s : Store) :
    (ofInput functions s).symbols ⊆ (ofInput functions' s).symbols := by
  intro name hname
  rcases List.mem_append.mp hname with hname | hname
  · obtain ⟨f, hf, hname⟩ := List.mem_flatMap.mp hname
    refine List.mem_append_left _ (List.mem_flatMap.mpr ⟨f, hf, ?_⟩)
    rcases List.mem_cons.mp hname with rfl | hname
    · exact List.mem_cons_self
    · obtain ⟨call, hcall, rfl⟩ := List.mem_map.mp hname
      obtain ⟨hmem, hkept⟩ := List.mem_filter.mp hcall
      have hkept' : call.IsKept functions' := Program.Call.IsKept.mono hsub (by simpa using hkept)
      exact List.mem_cons_of_mem _ (List.mem_map_of_mem
        (List.mem_filter.mpr ⟨hmem, by simpa using hkept'⟩))
  · exact List.mem_append_right _ hname

lemma symbols_ofList_subset (hsub : functions ⊆ functions') (inputs : List Store) :
    (ofList (ofInput functions) inputs).symbols ⊆ (ofList (ofInput functions') inputs).symbols := by
  intro name hname
  obtain ⟨s, hs, hname⟩ := List.mem_flatMap.mp hname
  exact List.mem_flatMap.mpr ⟨s, hs, symbols_ofInput_subset hsub s hname⟩

end Contribution

/-- A table with fewer names is not larger. -/
lemma SymbolTable.size_le_of_subset {t t' : SymbolTable} (h : t.names ⊆ t'.names) :
    t.size ≤ t'.size :=
  (List.subperm_of_subset t.nodup h).length_le

end LinkSummary
