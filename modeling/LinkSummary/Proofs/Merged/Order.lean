import LinkSummary.Proofs.Merged.Named

/-!
# The order of inputs

When no two inputs define the same merged name, the order of the inputs decides in which order names
are interned, slots are inherited and functions are reached, but not what comes of it by name.
-/

namespace LinkSummary

variable {inputs inputs' : List Store}

namespace Contribution

/-- Two contributions to the same union, in different orders. -/
structure SameAs (k k' : Contribution) : Prop where
  program : k.program = k'.program
  symbols : ∀ name, name ∈ k.symbols ↔ name ∈ k'.symbols
  reports : ∀ d, k.Reports d ↔ k'.Reports d

lemma ofInputs_eq_of_perm (hperm : inputs.Perm inputs') :
    ofInputs inputs' = ofList (ofInput (inputs.flatMap Store.mergedFunctionNames)) inputs' :=
  ofList_congr fun s _ => ofInput_congr_of_mem_iff
    (fun _ => (hperm.flatMap_right Store.mergedFunctionNames).mem_iff.symm) s

/-- Without repeated names the order of the inputs does not matter. -/
theorem sameAs_of_perm (h : ∀ s ∈ inputs, s.WellFormed) (hperm : inputs.Perm inputs')
    (hfunctions : (inputs.flatMap Store.mergedFunctionNames).Nodup)
    (htypes : (inputs.flatMap Store.mergedTypeNames).Nodup) :
    SameAs (ofInputs inputs) (ofInputs inputs') := by
  rw [ofInputs_eq_of_perm hperm, ofInputs]
  generalize hknown : inputs.flatMap Store.mergedFunctionNames = known at hfunctions ⊢
  have hfunctions' : (ofList (ofInput known) inputs).functions.Perm
      (ofList (ofInput known) inputs').functions := hperm.flatMap_right _
  have htypes' : (ofList (ofInput known) inputs).types.Perm
      (ofList (ofInput known) inputs').types := hperm.flatMap_right _
  rw [← hknown, ← map_name_functions_ofList known h] at hfunctions
  rw [← map_name_types_ofList known h] at htypes
  refine ⟨?_, ?_, ?_⟩
  · apply Program.ext
    · exact Definition.first_eq_of_perm hfunctions hfunctions'
    · exact Definition.first_eq_of_perm htypes htypes'
  · intro name
    exact (hperm.flatMap_right fun s => (ofInput known s).symbols).mem_iff
  · -- no definition is repeated, so only the calls left out are reported
    intro d
    have hdropped := (hperm.flatMap_right fun s => (ofInput known s).dropped).mem_iff (a := d)
    have hnot := Definition.not_repeats_of_nodup hfunctions d
    have hnot' := Definition.not_repeats_of_nodup
      ((hfunctions'.map (·.name)).nodup_iff.mp hfunctions) d
    have hnone := Definition.not_repeats_of_nodup htypes d
    have hnone' := Definition.not_repeats_of_nodup
      ((htypes'.map (·.name)).nodup_iff.mp htypes) d
    simp only [Reports, hnot, hnot', hnone, hnone', or_false]
    exact hdropped

end Contribution

namespace Merged

lemma nodup_flatMap_of_disjoint {names : Store → List String} (h : ∀ s ∈ inputs, (names s).Nodup)
    (hdisjoint : inputs.Pairwise fun s s' => ∀ name ∈ names s, name ∉ names s') :
    (inputs.flatMap names).Nodup :=
  List.nodup_flatMap.mpr ⟨h, hdisjoint.imp fun hnames name => hnames name⟩

/-- A merge of built stores no two of which define the same merged name does not depend on their
order, as far as live functions, the text form and the reports are concerned. -/
theorem ofInputs_perm (hinputs : ∀ s ∈ inputs, s.Built) (hperm : inputs.Perm inputs')
    (hfunctions : inputs.Pairwise fun s s' =>
      ∀ name ∈ s.mergedFunctionNames, name ∉ s'.mergedFunctionNames)
    (htypes : inputs.Pairwise fun s s' => ∀ name ∈ s.mergedTypeNames, name ∉ s'.mergedTypeNames)
    (hsize : (combine inputs).store.symbols.size < 2 ^ 32) (traced traced' : Option String) :
    let m := ofInputs inputs traced
    let m' := ofInputs inputs' traced'
    (∀ name, m.isLive name = m'.isLive name) ∧ m.store.toYaml = m'.store.toYaml ∧
      ∀ d, d ∈ m.diagnostics ↔ d ∈ m'.diagnostics := by
  intro m m'
  have h : ∀ s ∈ inputs, s.WellFormed := fun s hs => (hinputs s hs).wellFormed
  have h' : ∀ s ∈ inputs', s.WellFormed := fun s hs => h s (hperm.mem_iff.mpr hs)
  have hsame := Contribution.sameAs_of_perm h hperm
    (nodup_flatMap_of_disjoint (fun s hs => Store.nodup_mergedFunctionNames (h s hs)) hfunctions)
    (nodup_flatMap_of_disjoint (fun s hs => Store.nodup_mergedTypeNames (h s hs)) htypes)
  have hsize' : (combine inputs').store.symbols.size < 2 ^ 32 := by
    apply size_combine_lt _ hsize
    intro name hname
    have hname := (mem_symbols_combine h').mp hname
    exact (mem_symbols_combine h).mpr ((hsame.symbols name).mpr hname)
  have hunion : (combine inputs).store.named = (combine inputs').store.named := by
    have hcontinues := continues_combine h' hsize'
    rw [← hsame.program] at hcontinues
    exact (continues_combine h hsize).unique hcontinues
      (complete_combine hsize) (complete_combine hsize')
  have hnamed : m.store.named = m'.store.named := by
    rw [named_ofInputs hsize, named_ofInputs hsize', hunion]
  refine ⟨?_, toYaml_eq_of_named h h' hsize hsize' hnamed, ?_⟩
  · intro name
    rw [isLive_eq_named, isLive_eq_named, hnamed]
  · intro d
    rw [mem_diagnostics_ofInputs h hsize, mem_diagnostics_ofInputs h' hsize', hunion,
      hsame.program, hsame.reports]

/-- A class of one module that derives from a class of another one, merged in both orders. -/
theorem ofInputs_perm_override :
    let app := Store.performAll "app"
      [.build (.recordFunction "main" { preserved := true }), .build (.recordFunction "C.f" {}),
        .build (.recordCall ⟨1⟩ "lib.B.f" .virtual false),
        .build (.recordType "C" (some "lib.B") ["C.f"])]
    let library := Store.performAll "lib"
      [.build (.recordFunction "B.f" {}), .build (.recordType "B" none ["B.f", "B.f"])]
    let m := ofInputs [app, library]
    let m' := ofInputs [library, app]
    ((∀ name, m.isLive name = m'.isLive name) ∧ m.store.toYaml = m'.store.toYaml ∧
      ∀ d, d ∈ m.diagnostics ↔ d ∈ m'.diagnostics) ∧
      m.isLive "app.C.f" = some true ∧ m.diagnostics = [.inconsistentVtable "app.C" 1] := by
  intro app library m m'
  have happ : app.Built := ⟨⟨_, _, rfl⟩, by decide +kernel⟩
  have hlibrary : library.Built := ⟨⟨_, _, rfl⟩, by decide +kernel⟩
  have hinputs : ∀ s ∈ [app, library], s.Built :=
    List.forall_mem_cons.mpr ⟨happ, List.forall_mem_singleton.mpr hlibrary⟩
  refine ⟨ofInputs_perm hinputs (.swap library app []) ?_ ?_ (by decide +kernel) none none, ?_⟩
  · rw [List.pairwise_pair]
    decide +kernel
  · rw [List.pairwise_pair]
    decide +kernel
  · decide +kernel

end Merged

end LinkSummary
