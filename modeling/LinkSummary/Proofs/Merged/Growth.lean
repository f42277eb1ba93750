import LinkSummary.Proofs.Merged.Named

/-!
# Merges of more inputs

More inputs only add to a merge: what was live stays live, tables become longer at their ends, and
calls that were left out come in between those that were kept.
-/

namespace LinkSummary

variable {xs ys : List Store}

namespace Contribution

lemma ofInputs_append (xs ys : List Store) : ofInputs (xs ++ ys) =
    ofList (ofInput ((xs ++ ys).flatMap Store.mergedFunctionNames)) xs ++
      ofList (ofInput ((xs ++ ys).flatMap Store.mergedFunctionNames)) ys :=
  ofList_append _ xs ys

lemma mergedFunctionNames_subset (xs ys : List Store) :
    xs.flatMap Store.mergedFunctionNames ⊆ (xs ++ ys).flatMap Store.mergedFunctionNames := by
  rw [List.flatMap_append]
  exact List.subset_append_left _ _

/-- What some inputs contribute is within what they contribute with more after them. -/
theorem within_ofInputs (xs ys : List Store) :
    (ofInputs xs).program.Within (ofInputs (xs ++ ys)).program := by
  rw [ofInputs_append, program_append]
  exact (within_ofList (mergedFunctionNames_subset xs ys) xs).trans (Program.within_orElse _ _)

lemma symbols_ofInputs_subset (xs ys : List Store) :
    (ofInputs xs).symbols ⊆ (ofInputs (xs ++ ys)).symbols := by
  rw [ofInputs_append, symbols_append]
  exact List.subset_append_of_subset_left _
    (symbols_ofList_subset (mergedFunctionNames_subset xs ys) xs)

end Contribution

namespace Merged

lemma names_combine_subset (hxs : ∀ s ∈ xs, s.WellFormed) (hys : ∀ s ∈ ys, s.WellFormed) :
    (combine xs).store.symbols.names ⊆ (combine (xs ++ ys)).store.symbols.names := by
  intro name hname
  have hname := (mem_symbols_combine hxs).mp hname
  exact (mem_symbols_combine (List.forall_mem_append.mpr ⟨hxs, hys⟩)).mpr
    (Contribution.symbols_ofInputs_subset xs ys hname)

/-- What is reachable in a union stays so in a union with more inputs. -/
lemma reachable_combine_append (hxs : ∀ s ∈ xs, s.WellFormed) (hys : ∀ s ∈ ys, s.WellFormed)
    (hsize : (combine (xs ++ ys)).store.symbols.size < 2 ^ 32) {name : String}
    (h : (combine xs).store.named.Reachable name) :
    (combine (xs ++ ys)).store.named.Reachable name := by
  have hsize' := size_combine_lt (names_combine_subset hxs hys) hsize
  exact (Contribution.within_ofInputs xs ys).reachable
    (continues_combine hxs hsize')
    (continues_combine (List.forall_mem_append.mpr ⟨hxs, hys⟩) hsize)
    (complete_combine hsize) h

/-- Merging more built stores keeps live functions live, tables as beginnings of tables, and calls
in their order. -/
theorem ofInputs_append_grows (hxs : ∀ s ∈ xs, s.Built) (hys : ∀ s ∈ ys, s.Built)
    (hsize : (combine (xs ++ ys)).store.symbols.size < 2 ^ 32) (traced traced' : Option String) :
    let m := ofInputs xs traced
    let m' := ofInputs (xs ++ ys) traced'
    (∀ name, m.isLive name = some true → m'.isLive name = some true) ∧
      (∀ name t, m.store.named.types name = some t →
        ∃ t', m'.store.named.types name = some t' ∧ t.slots <+: t'.slots) ∧
      ∀ name f, m.store.named.functions name = some f →
        ∃ f', m'.store.named.functions name = some f' ∧ f.calls.Sublist f'.calls := by
  intro m m'
  have hxs : ∀ s ∈ xs, s.WellFormed := fun s hs => (hxs s hs).wellFormed
  have hys : ∀ s ∈ ys, s.WellFormed := fun s hs => (hys s hs).wellFormed
  have hsize' := size_combine_lt (names_combine_subset hxs hys) hsize
  have hwithin := Contribution.within_ofInputs xs ys
  have hcontinues := continues_combine hxs hsize'
  have hcontinues' := continues_combine (List.forall_mem_append.mpr ⟨hxs, hys⟩) hsize
  have hnamed : m.store.named = (combine xs).store.named.spread := named_ofInputs hsize' traced
  have hnamed' : m'.store.named = (combine (xs ++ ys)).store.named.spread :=
    named_ofInputs hsize traced'
  refine ⟨?_, ?_, ?_⟩
  · intro name hlive
    rw [isLive_ofInputs_iff hsize'] at hlive
    rw [isLive_ofInputs_iff hsize]
    obtain ⟨hdef, hreach⟩ := hlive
    obtain ⟨f, hf⟩ := Option.isSome_iff_exists.mp hdef
    obtain ⟨f', hf', -⟩ := hwithin.functions_of_continues hcontinues hcontinues' hf
    exact ⟨Option.isSome_iff_exists.mpr ⟨f', hf'⟩, reachable_combine_append hxs hys hsize hreach⟩
  · intro name t ht
    rw [hnamed] at ht
    rw [hnamed']
    obtain ⟨t', ht', -, -, hslots⟩ := hwithin.types_of_continues hcontinues hcontinues'
      (complete_combine hsize) ht
    exact ⟨t', ht', hslots⟩
  · intro name F hF
    rw [hnamed] at hF
    rw [hnamed']
    obtain ⟨f, hf, rfl⟩ := Option.map_eq_some_iff.mp hF
    obtain ⟨f', hf', -, hcalls⟩ := hwithin.functions_of_continues hcontinues hcontinues' hf
    obtain ⟨live, hspread⟩ := Program.functions_spread_of_some hf'
    exact ⟨_, hspread, hcalls⟩

/-- An override that comes with the second module becomes live, beside what was live before. -/
theorem ofInputs_append_grows_plugin :
    let library := Store.performAll "lib"
      [.build (.recordFunction "main" { preserved := true }), .build (.recordFunction "B.f" {}),
        .build (.recordCall ⟨1⟩ "B.f" .virtual false), .build (.recordType "B" none ["B.f"])]
    let plugin := Store.performAll "plugin"
      [.build (.recordFunction "C.f" {}), .build (.recordType "C" (some "lib.B") ["C.f"])]
    let m := ofInputs [library]
    let m' := ofInputs [library, plugin]
    ((∀ name, m.isLive name = some true → m'.isLive name = some true) ∧
      (∀ name t, m.store.named.types name = some t →
        ∃ t', m'.store.named.types name = some t' ∧ t.slots <+: t'.slots) ∧
      ∀ name f, m.store.named.functions name = some f →
        ∃ f', m'.store.named.functions name = some f' ∧ f.calls.Sublist f'.calls) ∧
      m.isLive "lib.B.f" = some true ∧ m'.isLive "plugin.C.f" = some true := by
  intro library plugin m m'
  have hlibrary : library.Built := ⟨⟨_, _, rfl⟩, by decide +kernel⟩
  have hplugin : plugin.Built := ⟨⟨_, _, rfl⟩, by decide +kernel⟩
  refine ⟨?_, by decide +kernel⟩
  exact @ofInputs_append_grows [library] [plugin] (List.forall_mem_singleton.mpr hlibrary)
    (List.forall_mem_singleton.mpr hplugin) (by decide +kernel) none none

end Merged

end LinkSummary
