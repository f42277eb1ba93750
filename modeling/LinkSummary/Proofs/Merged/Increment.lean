import LinkSummary.Proofs.Merge.Combined
import LinkSummary.Proofs.Merged.Growth

/-!
# Merges of merges

Merging a merged store with more inputs comes to the same as merging all at once, unless one of
these defines a function that a call of the first merge was left out for. The live functions of the
first merge are roots of the second, but these would have been reached in any case.
-/

namespace LinkSummary

variable {xs ys : List Store} {traced : Option String}

namespace Contribution

/-- Inputs none of whose calls is kept for the sake of others contribute the same without these. -/
lemma ofList_eq_ofInputs (h : ∀ s ∈ xs, ∀ f ∈ s.functions.values, ∀ edge ∈ f.calls,
      (s.mergedCall edge).IsKept ((xs ++ ys).flatMap Store.mergedFunctionNames) →
        (s.mergedCall edge).IsKept (xs.flatMap Store.mergedFunctionNames)) :
    ofList (ofInput ((xs ++ ys).flatMap Store.mergedFunctionNames)) xs = ofInputs xs :=
  ofList_congr fun s hs => ofInput_congr fun f hf edge hedge =>
    ⟨h s hs f hf edge hedge, fun hkept => hkept.mono (mergedFunctionNames_subset xs ys)⟩

lemma ofList_singleton {α : Type} (g : α → Contribution) (x : α) : ofList g [x] = g x := by
  ext1 <;> simp [ofList]

end Contribution

namespace Merged

/-- No call of a merge was left out for want of a function that one of the inputs defines. -/
def MissesNoneOf (m : Merged) (ys : List Store) : Prop :=
  ∀ caller callee kind, .unresolvedEdge caller callee kind .undefinedCallee ∈ m.diagnostics →
    ∀ s ∈ ys, callee ∉ s.mergedFunctionNames

lemma isKept_of_missesNoneOf (hxs : ∀ s ∈ xs, s.WellFormed)
    (hsize : (combine xs).store.symbols.size < 2 ^ 32)
    (hmisses : (ofInputs xs traced).MissesNoneOf ys) :
    ∀ s ∈ xs, ∀ f ∈ s.functions.values, ∀ edge ∈ f.calls,
      (s.mergedCall edge).IsKept ((xs ++ ys).flatMap Store.mergedFunctionNames) →
        (s.mergedCall edge).IsKept (xs.flatMap Store.mergedFunctionNames) := by
  intro s hs f hf edge hedge hkept
  by_contra hnot
  have hreported := (mem_diagnostics_ofInputs hxs hsize traced).mpr
    (.inl (.inl (.inl (Contribution.mem_dropped_ofList hs hf hedge hnot))))
  rcases hkept with hkind | hmem
  · exact hnot (.inl hkind)
  · rw [List.flatMap_append, List.mem_append] at hmem
    rcases hmem with hmem | hmem
    · exact hnot (.inr hmem)
    · obtain ⟨s', hs', hmem⟩ := List.mem_flatMap.mp hmem
      exact hmisses _ _ _ hreported s' hs' hmem

/-! ### The merged store as an input -/

lemma isKept_ofInputs (hxs : ∀ s ∈ xs, s.WellFormed)
    (hsize : (combine xs).store.symbols.size < 2 ^ 32) {name : String}
    {f : Program.Function String} (hf : (ofInputs xs traced).store.named.functions name = some f) :
    ∀ call ∈ f.calls, call.IsKept (xs.flatMap Store.mergedFunctionNames) := by
  rw [named_ofInputs hsize] at hf
  obtain ⟨g, hg, rfl⟩ := Option.map_eq_some_iff.mp hf
  rw [(continues_combine hxs hsize).functions] at hg
  intro call hcall
  exact Contribution.isKept_of_program_ofList hg call hcall

lemma mem_mergedFunctionNames_ofInputs (hxs : ∀ s ∈ xs, s.WellFormed)
    (hsize : (combine xs).store.symbols.size < 2 ^ 32) {name : String} :
    name ∈ (ofInputs xs traced).store.mergedFunctionNames ↔
      name ∈ xs.flatMap Store.mergedFunctionNames := by
  rw [Contribution.mem_mergedFunctionNames_of_combined (moduleName_ofInputs hxs traced)
    (faithful_ofInputs hsize traced), named_ofInputs hsize,
    ← Contribution.isSome_functions_program_iff (xs.flatMap Store.mergedFunctionNames) hxs]
  show ((Option.map _ ((combine xs).store.named.functions name))).isSome ↔ _
  rw [Option.isSome_map, (continues_combine hxs hsize).functions]
  rfl

/-- Both ways to merge know the same functions. -/
lemma mem_flatMap_cons_iff (hxs : ∀ s ∈ xs, s.WellFormed)
    (hsize : (combine xs).store.symbols.size < 2 ^ 32) (ys : List Store) (name : String) :
    name ∈ ((ofInputs xs traced).store :: ys).flatMap Store.mergedFunctionNames ↔
      name ∈ (xs ++ ys).flatMap Store.mergedFunctionNames := by
  rw [List.flatMap_cons, List.flatMap_append, List.mem_append, List.mem_append,
    mem_mergedFunctionNames_ofInputs hxs hsize]

lemma ofInputs_cons_eq (hxs : ∀ s ∈ xs, s.WellFormed)
    (hsize : (combine xs).store.symbols.size < 2 ^ 32) (ys : List Store) :
    Contribution.ofInputs ((ofInputs xs traced).store :: ys) =
      .ofInput ((xs ++ ys).flatMap Store.mergedFunctionNames) (ofInputs xs traced).store ++
        .ofList (.ofInput ((xs ++ ys).flatMap Store.mergedFunctionNames)) ys := by
  rw [Contribution.ofInputs, Contribution.ofList_congr fun s _ =>
      Contribution.ofInput_congr_of_mem_iff (mem_flatMap_cons_iff hxs hsize ys) s,
    ← List.singleton_append, Contribution.ofList_append, Contribution.ofList_singleton]

/-- By name the second of two merges starts from what the first one tells. -/
lemma program_ofInputs_cons (hxs : ∀ s ∈ xs, s.WellFormed)
    (hsize : (combine xs).store.symbols.size < 2 ^ 32) (ys : List Store) :
    (Contribution.ofInputs ((ofInputs xs traced).store :: ys)).program =
      (combine xs).store.named.spread.orElse (Contribution.ofList (.ofInput
        ((xs ++ ys).flatMap Store.mergedFunctionNames)) ys).program := by
  have hprogram := Contribution.program_of_combined
    ((xs ++ ys).flatMap Store.mergedFunctionNames) (moduleName_ofInputs hxs traced)
    (faithful_ofInputs hsize traced) fun hf call hcall =>
      (isKept_ofInputs hxs hsize hf call hcall).mono (Contribution.mergedFunctionNames_subset xs ys)
  rw [ofInputs_cons_eq hxs hsize, Contribution.program_append, hprogram, named_ofInputs hsize]

lemma names_combine_cons_subset (hxs : ∀ s ∈ xs, s.WellFormed) (hys : ∀ s ∈ ys, s.WellFormed)
    (hsize : (combine xs).store.symbols.size < 2 ^ 32) (traced : Option String) :
    (combine ((ofInputs xs traced).store :: ys)).store.symbols.names ⊆
      (combine (xs ++ ys)).store.symbols.names := by
  have hm := (faithful_ofInputs hsize traced).wellFormed
  intro name hname
  rw [mem_symbols_combine (List.forall_mem_cons.mpr ⟨hm, hys⟩), ofInputs_cons_eq hxs hsize,
    Contribution.symbols_append, List.mem_append] at hname
  rcases hname with hname | hname
  · apply names_combine_subset hxs hys
    rw [← symbols_ofInputs xs traced]
    exact Contribution.symbols_subset_of_combined (moduleName_ofInputs hxs traced) hm _ hname
  · rw [mem_symbols_combine (List.forall_mem_append.mpr ⟨hxs, hys⟩),
      Contribution.ofInputs_append, Contribution.symbols_append, List.mem_append]
    exact .inr hname

/-! ### Two merges and one -/

/-- Merging in two steps is merging in one, by name. -/
lemma named_ofInputs_cons (hxs : ∀ s ∈ xs, s.WellFormed) (hys : ∀ s ∈ ys, s.WellFormed)
    (hsize : (combine (xs ++ ys)).store.symbols.size < 2 ^ 32)
    (hmisses : (ofInputs xs traced).MissesNoneOf ys) (traced' traced'' : Option String) :
    (ofInputs ((ofInputs xs traced).store :: ys) traced').store.named =
      (ofInputs (xs ++ ys) traced'').store.named := by
  have hboth : ∀ s ∈ xs ++ ys, s.WellFormed := List.forall_mem_append.mpr ⟨hxs, hys⟩
  have hfirst := size_combine_lt (names_combine_subset hxs hys) hsize
  have hsecond := size_combine_lt (names_combine_cons_subset hxs hys hfirst traced) hsize
  have hm := (faithful_ofInputs hfirst traced).wellFormed
  have honce := continues_combine hboth hsize
  have htwice := continues_combine (List.forall_mem_cons.mpr ⟨hm, hys⟩) hsecond
  rw [Contribution.ofInputs_append, Contribution.program_append, Contribution.ofList_eq_ofInputs
    (isKept_of_missesNoneOf hxs hfirst hmisses)] at honce
  rw [program_ofInputs_cons hxs hfirst] at htwice
  rw [named_ofInputs hsecond, named_ofInputs hsize]
  exact (continues_combine hxs hfirst).spread_orElse honce htwice (complete_combine hsize)
    (complete_combine hsecond)

lemma named_ofInputs_singleton (hxs : ∀ s ∈ xs, s.WellFormed)
    (hsize : (combine xs).store.symbols.size < 2 ^ 32) (traced traced' : Option String) :
    (ofInputs [(ofInputs xs traced).store] traced').store.named =
      (ofInputs xs traced).store.named := by
  have hnone : (ofInputs xs traced).MissesNoneOf [] := fun _ _ _ _ s hs => by cases hs
  have hagain := named_ofInputs_cons hxs (List.forall_mem_nil _) (by rwa [List.append_nil]) hnone
    traced' traced
  rwa [List.append_nil] at hagain

/-- Merging the result of a merge with more built stores has the same outcome as merging all of them
at once, if no call of the first merge was left out for want of a function of these. Merging the
result alone changes nothing but ids. -/
theorem ofInputs_store_cons (hxs : ∀ s ∈ xs, s.Built) (hys : ∀ s ∈ ys, s.Built)
    (hsize : (combine (xs ++ ys)).store.symbols.size < 2 ^ 32)
    (hmisses : (ofInputs xs traced).MissesNoneOf ys) (traced' traced'' : Option String) :
    let m := (ofInputs xs traced).store
    let twice := (ofInputs (m :: ys) traced').store
    let once := (ofInputs (xs ++ ys) traced'').store
    let again := (ofInputs [m] traced').store
    (twice.named = once.named ∧ twice.toYaml = once.toYaml) ∧
      again.named = m.named ∧ again.toYaml = m.toYaml := by
  intro m twice once again
  have hxs : ∀ s ∈ xs, s.WellFormed := fun s hs => (hxs s hs).wellFormed
  have hys : ∀ s ∈ ys, s.WellFormed := fun s hs => (hys s hs).wellFormed
  have hfirst := size_combine_lt (names_combine_subset hxs hys) hsize
  have hm : m.WellFormed := (faithful_ofInputs hfirst traced).wellFormed
  have hall : twice.named = once.named :=
    named_ofInputs_cons hxs hys hsize hmisses traced' traced''
  have hagain : again.named = m.named := named_ofInputs_singleton hxs hfirst traced traced'
  refine ⟨⟨hall, ?_⟩, hagain, ?_⟩
  · exact toYaml_eq_of_named (List.forall_mem_cons.mpr ⟨hm, hys⟩)
      (List.forall_mem_append.mpr ⟨hxs, hys⟩)
      (size_combine_lt (names_combine_cons_subset hxs hys hfirst traced) hsize) hsize hall
  · have hnames := names_combine_cons_subset hxs (List.forall_mem_nil Store.WellFormed) hfirst traced
    rw [List.append_nil] at hnames
    exact toYaml_eq_of_named (List.forall_mem_singleton.mpr hm) hxs
      (size_combine_lt hnames hfirst) hfirst hagain

/-- A class is merged first, and then the class that derives from it. -/
theorem ofInputs_store_cons_plugin :
    let library := Store.performAll "lib"
      [.build (.recordFunction "main" { preserved := true }), .build (.recordFunction "B.f" {}),
        .build (.recordCall ⟨1⟩ "B.f" .virtual false), .build (.recordCall ⟨1⟩ "puts" .direct false),
        .build (.recordType "B" none ["B.f"])]
    let plugin := Store.performAll "plugin"
      [.build (.recordFunction "C.f" {}), .build (.recordType "C" (some "lib.B") ["C.f"])]
    let m := (ofInputs [library]).store
    let twice := (ofInputs [m, plugin]).store
    let once := (ofInputs [library, plugin]).store
    let again := (ofInputs [m]).store
    ((twice.named = once.named ∧ twice.toYaml = once.toYaml) ∧
      again.named = m.named ∧ again.toYaml = m.toYaml) ∧
      twice.moduleName = "combined" ∧ (ofInputs [m, plugin]).isLive "plugin.C.f" = some true := by
  intro library plugin m twice once again
  have hlibrary : library.Built := ⟨⟨_, _, rfl⟩, by decide +kernel⟩
  have hplugin : plugin.Built := ⟨⟨_, _, rfl⟩, by decide +kernel⟩
  have hdiagnostics : (ofInputs [library]).diagnostics =
      [.unresolvedEdge "lib.main" "puts" .direct .undefinedCallee] := by decide +kernel
  have hmisses : (ofInputs [library]).MissesNoneOf [plugin] := by
    intro caller callee kind hmem
    rw [hdiagnostics, List.mem_singleton] at hmem
    cases hmem
    decide +kernel
  refine ⟨?_, by decide +kernel⟩
  exact @ofInputs_store_cons [library] [plugin] none
    (List.forall_mem_singleton.mpr hlibrary) (List.forall_mem_singleton.mpr hplugin)
    (by decide +kernel) hmisses none none

end Merged

end LinkSummary
