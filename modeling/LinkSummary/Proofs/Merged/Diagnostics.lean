import LinkSummary.Proofs.Liveness.Settled
import LinkSummary.Proofs.Merged.Named

/-!
# The reports of a merge

What a merge of stores reports can be told from its inputs and its result. Taking over the inputs
yields the calls left out and the names defined again, continuing the tables those that were too
short, and spreading liveness the dynamic calls without an entry. All this goes to one list, in
which no report is repeated.
-/

namespace LinkSummary

lemma Diagnostic.nodup_addTo {ds : List Diagnostic} (h : ds.Nodup) (d : Diagnostic) :
    (addTo ds d).Nodup := by
  rw [addTo]
  split
  · exact h
  · rename_i hnew
    rw [← List.concat_eq_append, List.nodup_concat]
    exact ⟨hnew, h⟩

/-! ### No report twice -/

namespace Combination

variable {c : Combination}

/-- No report of a union under construction is repeated. -/
def ReportsOnce (c : Combination) : Prop := c.diagnostics.Nodup

namespace ReportsOnce

lemma report (h : c.ReportsOnce) (d : Diagnostic) : (c.report d).ReportsOnce :=
  Diagnostic.nodup_addTo h d

lemma internReference (h : c.ReportsOnce) (input : Store) (id : SymbolId) :
    (c.internReference input id).2.ReportsOnce := by
  rw [Combination.internReference]
  split
  · exact h.report _
  · exact h

lemma addCalls (h : c.ReportsOnce) (functions : List String) (input : Store) (caller : String)
    (edges : List CallEdge) : (c.addCalls functions input caller edges).2.ReportsOnce := by
  induction edges generalizing c with
  | nil => exact h
  | cons edge edges ih =>
    rw [Combination.addCalls]
    split
    · exact ih (h.report _)
    · dsimp only
      split
      · exact ih (h.report _)
      · exact ih (c := (c.intern _).2) h

lemma addBase (h : c.ReportsOnce) (input : Store) (base : Option SymbolId) :
    (c.addBase input base).2.ReportsOnce := by
  cases base with
  | none => exact h
  | some base => exact h.internReference input base

lemma addSlots (h : c.ReportsOnce) (input : Store) (slots : List SymbolId) :
    (c.addSlots input slots).2.ReportsOnce := by
  induction slots generalizing c with
  | nil => exact h
  | cons slot slots ih =>
    have hfirst := h.internReference input slot
    rw [Combination.addSlots]
    split
    · rename_i heq
      rwa [heq] at hfirst
    · rename_i heq
      rw [heq] at hfirst
      have hrest := ih hfirst
      split
      · rename_i heq
        rwa [heq] at hrest
      · rename_i heq
        rwa [heq] at hrest

lemma addWitnesses (h : c.ReportsOnce) (input : Store) (entries : List (SymbolId × SymbolId)) :
    (c.addWitnesses input entries).2.ReportsOnce := by
  induction entries generalizing c with
  | nil => exact h
  | cons entry entries ih =>
    have hrest := ih ((h.internReference input entry.1).internReference input entry.2)
    rw [Combination.addWitnesses]
    dsimp only
    split
    · exact hrest
    · exact hrest

lemma inserted (h : c.ReportsOnce) (input : Store) (name : String)
    (outcome : Except SummaryError Store) : (c.inserted input name outcome).ReportsOnce := by
  cases outcome with
  | ok s => exact h
  | error e =>
    cases e with
    | duplicateDefinition _ => exact h.report _
    | unknownSymbol _ | unknownFunction _ | unknownType _ | shortVtable _ _ _ _ => exact h

lemma addFunction (h : c.ReportsOnce) (functions : List String) (input : Store)
    (f : FunctionSummary) : (c.addFunction functions input f).ReportsOnce := by
  rw [Combination.addFunction]
  split
  · exact h.report _
  · exact (ReportsOnce.addCalls (c := (c.intern _).2) h functions input _ f.calls).inserted ..

lemma addType (h : c.ReportsOnce) (input : Store) (t : TypeSummary) :
    (c.addType input t).ReportsOnce := by
  rw [Combination.addType]
  split
  · exact h.report _
  · rename_i name _
    have hbase := ReportsOnce.addBase (c := (c.intern (input.qualify name)).2) h input t.base
    have hslots := hbase.addSlots input t.slots
    dsimp only
    split
    · rename_i heq
      rwa [heq] at hslots
    · rename_i heq
      rw [heq] at hslots
      exact (hslots.addWitnesses input t.witnesses.entries).inserted ..

lemma addInput (h : c.ReportsOnce) (functions : List String) (input : Store) :
    (c.addInput functions input).ReportsOnce :=
  List.foldlRecOn (motive := ReportsOnce) _ _
    (List.foldlRecOn (motive := ReportsOnce) _ _ h fun _ hc f _ => hc.addFunction functions input f)
    fun _ hc t _ => hc.addType input t

lemma inheritSlots (h : c.ReportsOnce) : c.inheritSlots.ReportsOnce :=
  List.foldlRecOn (motive := ReportsOnce) _ _ (b := { c with store := _ }) h
    fun _ hc _ _ => hc.report _

end ReportsOnce

lemma reportsOnce_ofInputs (inputs : List Store) : (ofInputs inputs).ReportsOnce := by
  have hempty : ReportsOnce {} := List.nodup_nil
  have hcollected : (collect inputs).ReportsOnce :=
    List.foldlRecOn (motive := ReportsOnce) _ _ hempty fun _ hc input _ => hc.addInput _ input
  exact hcollected.inheritSlots

end Combination

namespace Spread

lemma nodup_diagnostics_followCall {p : Spread} (h : p.diagnostics.Nodup) (x : DispatchIndex)
    (caller : SymbolId) (edge : CallEdge) : (p.followCall x caller edge).diagnostics.Nodup := by
  rw [followCall, diagnostics_foldl_reach]
  dsimp only
  split
  · exact h
  · exact Diagnostic.nodup_addTo h _

lemma nodup_diagnostics_follow {p : Spread} (h : p.diagnostics.Nodup) (x : DispatchIndex)
    (caller : SymbolId) : (p.follow x caller).diagnostics.Nodup := by
  rw [follow]
  split
  · exact h
  · exact List.foldlRecOn (motive := fun p : Spread => p.diagnostics.Nodup) _ _ h
      fun _ hp edge _ => nodup_diagnostics_followCall hp x caller edge

lemma nodup_diagnostics_run {p : Spread} (h : p.diagnostics.Nodup) (x : DispatchIndex) :
    (p.run x).diagnostics.Nodup := by
  fun_induction run x p with
  | case1 p hqueue => exact h
  | case2 p caller queue hqueue ih =>
    exact ih (nodup_diagnostics_follow (p := { p with queue }) h x caller)

end Spread

/-! ### What is reported -/

/-- What is to be reported of a merge of some inputs whose result is `m`. -/
inductive Reportable (inputs : List Store) (m : Store) : Diagnostic → Prop
  /-- A call of an input is to a function that no input defines. -/
  | undefinedCallee {s : Store} {f : FunctionSummary} {edge : CallEdge} :
    s ∈ inputs → f ∈ s.functions.values → edge ∈ f.calls → edge.kind ≠ .witness →
      s.referenceName edge.callee ∉ inputs.flatMap Store.mergedFunctionNames →
        Reportable inputs m (.unresolvedEdge (s.definitionName f.id)
          (s.referenceName edge.callee) edge.kind .undefinedCallee)
  | duplicateFunction {before after : List Store} {s : Store} {name : String} :
    inputs = before ++ s :: after → name ∈ s.mergedFunctionNames →
      name ∈ before.flatMap Store.mergedFunctionNames →
        Reportable inputs m (.duplicateDefinition name s.moduleName)
  | duplicateType {before after : List Store} {s : Store} {name : String} :
    inputs = before ++ s :: after → name ∈ s.mergedTypeNames →
      name ∈ before.flatMap Store.mergedTypeNames →
        Reportable inputs m (.duplicateDefinition name s.moduleName)
  /-- The first definition of a type has fewer slots than that of a type further up. -/
  | shortTable {type ancestor : String} {t u : Program.Tables String} :
    (Contribution.ofInputs inputs).program.types type = some t →
      (Contribution.ofInputs inputs).program.SubtypeOf type ancestor →
        (Contribution.ofInputs inputs).program.types ancestor = some u →
          t.slots.length < u.slots.length →
            Reportable inputs m (.inconsistentVtable type t.slots.length)
  /-- No table of the result has an entry for a dynamic call of a live function. -/
  | noEntry {caller : SymbolId} {f : FunctionSummary} {edge : CallEdge} :
    m.function? caller = some f → f.isLive = true → edge ∈ f.calls →
      ¬ m.HasEntry edge.callee edge.kind →
        Reportable inputs m (.unresolvedEdge (m.shownName caller) (m.shownName edge.callee)
          edge.kind .noDispatchEntry)

variable {inputs : List Store} {m : Store} {d : Diagnostic}

namespace Contribution

lemma mem_dropped_ofInputs : d ∈ (ofInputs inputs).dropped ↔
    ∃ s ∈ inputs, ∃ f ∈ s.functions.values, ∃ edge ∈ f.calls, edge.kind ≠ .witness ∧
      s.referenceName edge.callee ∉ inputs.flatMap Store.mergedFunctionNames ∧
        d = .unresolvedEdge (s.definitionName f.id) (s.referenceName edge.callee) edge.kind
          .undefinedCallee := by
  have htypes : ∀ s : Store, s.types.values.flatMap (fun t => (ofType s t).dropped) = [] :=
    fun s => List.flatMap_eq_nil_iff.mpr fun _ _ => rfl
  simp only [ofInputs, ofList, ofInput, dropped_append, htypes, List.append_nil, ofFunction,
    Store.droppedCalls, List.mem_flatMap, List.mem_map, List.mem_filter, decide_eq_true_eq,
    Program.Call.IsKept, not_or]
  constructor
  · rintro ⟨s, hs, f, hf, _, ⟨⟨edge, hedge, rfl⟩, hkind, hcallee⟩, rfl⟩
    exact ⟨s, hs, f, hf, edge, hedge, hkind, hcallee, rfl⟩
  · rintro ⟨s, hs, f, hf, edge, hedge, hkind, hcallee, rfl⟩
    exact ⟨s, hs, f, hf, _, ⟨⟨edge, hedge, rfl⟩, hkind, hcallee⟩, rfl⟩

/-- Inputs that each define a name once repeat the names that inputs before them define. -/
lemma repeats_definitions_iff {α : Type} {g : Store → List (Definition α)}
    {names : Store → List String} (hnames : ∀ s ∈ inputs, (g s).map (·.name) = names s)
    (hnodup : ∀ s ∈ inputs, (names s).Nodup) (hmodule : ∀ s, ∀ e ∈ g s, e.module = s.moduleName) :
    Definition.Repeats (inputs.flatMap g) d ↔ ∃ before s after name,
      inputs = before ++ s :: after ∧ name ∈ names s ∧ name ∈ before.flatMap names ∧
        d = .duplicateDefinition name s.moduleName := by
  have hbefore : ∀ before s after, inputs = before ++ s :: after →
      (before.flatMap g).map (·.name) = before.flatMap names := by
    rintro before s after rfl
    rw [List.map_flatMap]
    exact List.flatMap_congr fun s hs => hnames s (List.mem_append_left _ hs)
  rw [Definition.repeats_flatMap fun s hs => hnames s hs ▸ hnodup s hs]
  constructor
  · rintro ⟨before, s, ⟨after, heq⟩, e, he, hmem, rfl⟩
    have hinputs : inputs = before ++ s :: after := by rw [← heq, List.append_assoc]; rfl
    have hs : s ∈ inputs := hinputs ▸ List.mem_append_right _ List.mem_cons_self
    refine ⟨before, s, after, e.name, hinputs, ?_, ?_, by rw [hmodule s e he]⟩
    · exact hnames s hs ▸ List.mem_map_of_mem (f := (·.name)) he
    · exact hbefore before s after hinputs ▸ hmem
  · rintro ⟨before, s, after, name, hinputs, hname, hmem, rfl⟩
    have hs : s ∈ inputs := hinputs ▸ List.mem_append_right _ List.mem_cons_self
    rw [← hnames s hs] at hname
    obtain ⟨e, he, rfl⟩ := List.mem_map.mp hname
    refine ⟨before, s, ⟨after, ?_⟩, e, he, ?_, by rw [hmodule s e he]⟩
    · rw [hinputs, List.append_assoc]
      rfl
    · exact hbefore before s after hinputs ▸ hmem

lemma repeats_functions_ofInputs (h : ∀ s ∈ inputs, s.WellFormed) :
    Definition.Repeats (ofInputs inputs).functions d ↔ ∃ before s after name,
      inputs = before ++ s :: after ∧ name ∈ s.mergedFunctionNames ∧
        name ∈ before.flatMap Store.mergedFunctionNames ∧
          d = .duplicateDefinition name s.moduleName := by
  apply repeats_definitions_iff (g := fun s => (ofInput _ s).functions)
  · exact fun s hs => map_name_functions_ofInput _ (h s hs)
  · exact fun s hs => Store.nodup_mergedFunctionNames (h s hs)
  · intro s e he
    rw [functions_ofInput] at he
    obtain ⟨f, -, rfl⟩ := List.mem_map.mp he
    rfl

lemma repeats_types_ofInputs (h : ∀ s ∈ inputs, s.WellFormed) :
    Definition.Repeats (ofInputs inputs).types d ↔ ∃ before s after name,
      inputs = before ++ s :: after ∧ name ∈ s.mergedTypeNames ∧
        name ∈ before.flatMap Store.mergedTypeNames ∧
          d = .duplicateDefinition name s.moduleName := by
  apply repeats_definitions_iff (g := fun s => (ofInput _ s).types)
  · exact fun s hs => map_name_types_ofInput _ (h s hs)
  · exact fun s hs => Store.nodup_mergedTypeNames (h s hs)
  · intro s e he
    rw [types_ofInput] at he
    obtain ⟨t, -, rfl⟩ := List.mem_map.mp he
    rfl

end Contribution

namespace Merged

/-- The tables that were continued are those of the types below one with more slots. -/
lemma reportsLonger_iff (h : ∀ s ∈ inputs, s.WellFormed)
    (hsize : (combine inputs).store.symbols.size < 2 ^ 32) :
    Combination.ReportsLonger (Contribution.ofInputs inputs).program
        (combine inputs).store.named d ↔
      ∃ type ancestor t u, (Contribution.ofInputs inputs).program.types type = some t ∧
        (Contribution.ofInputs inputs).program.SubtypeOf type ancestor ∧
        (Contribution.ofInputs inputs).program.types ancestor = some u ∧
        t.slots.length < u.slots.length ∧ d = .inconsistentVtable type t.slots.length := by
  have hcontinues := continues_combine h hsize
  have hcomplete := complete_combine hsize
  constructor
  · rintro ⟨type, t, t', ht, ht', hlt, rfl⟩
    obtain ⟨ancestor, u, hsub, hu, hlt⟩ := (hcontinues.length_lt_iff hcomplete ht ht').mp hlt
    exact ⟨type, ancestor, t, u, ht, hsub, hu, hlt, rfl⟩
  · rintro ⟨type, ancestor, t, u, ht, hsub, hu, hlt, rfl⟩
    obtain ⟨rest, ht'⟩ := hcontinues.types_some type t ht
    exact ⟨type, t, _, ht, ht',
      (hcontinues.length_lt_iff hcomplete ht ht').mpr ⟨ancestor, u, hsub, hu, hlt⟩, rfl⟩

/-- The calls without an entry that are reachable by name are those of the live functions. -/
lemma exists_reportsFrom_iff (hsize : (combine inputs).store.symbols.size < 2 ^ 32)
    (traced : Option String) :
    (∃ caller, (combine inputs).store.named.Reachable caller ∧
        (combine inputs).store.named.ReportsFrom caller d) ↔
      ∃ id, (ofInputs inputs traced).store.isLive id = true ∧
        (ofInputs inputs traced).store.Misses id d := by
  have hs := faithful_combine hsize
  have hlive : ∀ id, (ofInputs inputs traced).store.isLive id = true ↔
      (combine inputs).store.Reachable id := isLive_propagate_combine_iff inputs traced
  simp only [hlive, (raises_ofInputs inputs traced).misses_iff hs.wellFormed]
  constructor
  · rintro ⟨caller, hreach, hreports⟩
    obtain ⟨F, hF, -⟩ := id hreports
    obtain ⟨id, f, hid, hf, -⟩ := Store.functions_named_eq_some_iff.mp hF
    have hname := Store.shownName_of_lookup hs.size_lt hid
    have hcontains := hs.wellFormed.contains_function hf
    refine ⟨id, (hs.reachable_named_iff hcontains).mp (hname ▸ hreach), f, hf, ?_⟩
    exact (Spread.reportsFrom_named_iff hs hf).mp (hname ▸ hreports)
  · rintro ⟨id, hreach, f, hf, hmisses⟩
    have hcontains := hs.wellFormed.contains_function hf
    exact ⟨_, (hs.reachable_named_iff hcontains).mpr hreach,
      (Spread.reportsFrom_named_iff hs hf).mpr hmisses⟩

lemma nodup_diagnostics_ofInputs (inputs : List Store) (traced : Option String) :
    (ofInputs inputs traced).diagnostics.Nodup := by
  apply Spread.nodup_diagnostics_run
  rw [Spread.diagnostics_start]
  exact Combination.reportsOnce_ofInputs inputs

/-- The reports are all that is reportable, by what each part of the merge yields. -/
lemma mem_diagnostics_iff_reportable (h : ∀ s ∈ inputs, s.WellFormed)
    (hsize : (combine inputs).store.symbols.size < 2 ^ 32) (traced : Option String) :
    d ∈ (ofInputs inputs traced).diagnostics ↔
      Reportable inputs (ofInputs inputs traced).store d := by
  rw [mem_diagnostics_ofInputs h hsize, Contribution.Reports, Contribution.mem_dropped_ofInputs,
    Contribution.repeats_functions_ofInputs h, Contribution.repeats_types_ofInputs h,
    reportsLonger_iff h hsize, exists_reportsFrom_iff hsize traced]
  constructor
  · rintro (((⟨s, hs, f, hf, edge, hedge, hkind, hcallee, rfl⟩ |
      ⟨before, s, after, name, heq, hname, hbefore, rfl⟩ |
      ⟨before, s, after, name, heq, hname, hbefore, rfl⟩) |
      ⟨type, ancestor, t, u, ht, hsub, hu, hlt, rfl⟩) |
      ⟨id, hlive, f, hf, edge, hedge, hnot, rfl⟩)
    · exact .undefinedCallee hs hf hedge hkind hcallee
    · exact .duplicateFunction heq hname hbefore
    · exact .duplicateType heq hname hbefore
    · exact .shortTable ht hsub hu hlt
    · obtain ⟨f', hf', hflive⟩ := Store.isLive_iff.mp hlive
      rw [hf, Option.some.injEq] at hf'
      rw [Store.resolves_program_iff] at hnot
      exact .noEntry hf (hf' ▸ hflive) hedge hnot
  · rintro (⟨hs, hf, hedge, hkind, hcallee⟩ | ⟨heq, hname, hbefore⟩ | ⟨heq, hname, hbefore⟩ |
      ⟨ht, hsub, hu, hlt⟩ | ⟨hf, hlive, hedge, hnot⟩)
    · exact .inl (.inl (.inl ⟨_, hs, _, hf, _, hedge, hkind, hcallee, rfl⟩))
    · exact .inl (.inl (.inr (.inl ⟨_, _, _, _, heq, hname, hbefore, rfl⟩)))
    · exact .inl (.inl (.inr (.inr ⟨_, _, _, _, heq, hname, hbefore, rfl⟩)))
    · exact .inl (.inr ⟨_, _, _, _, ht, hsub, hu, hlt, rfl⟩)
    · rw [← Store.resolves_program_iff] at hnot
      exact .inr ⟨_, Store.isLive_iff.mpr ⟨_, hf, hlive⟩, _, hf, _, hedge, hnot, rfl⟩

/-- A merge of built stores reports exactly what is to be reported, each thing once. No symbol of an
input is found to dangle. -/
theorem diagnostics_ofInputs (hinputs : ∀ s ∈ inputs, s.Built)
    (hsize : (combine inputs).store.symbols.size < 2 ^ 32) (traced : Option String) :
    (ofInputs inputs traced).diagnostics.Nodup ∧
      (∀ d, d ∈ (ofInputs inputs traced).diagnostics ↔
        Reportable inputs (ofInputs inputs traced).store d) ∧
      ∀ module id, .danglingSymbol module id ∉ (ofInputs inputs traced).diagnostics := by
  have hmem (d : Diagnostic) := mem_diagnostics_iff_reportable (d := d)
    (fun s hs => (hinputs s hs).wellFormed) hsize traced
  refine ⟨nodup_diagnostics_ofInputs inputs traced, hmem, ?_⟩
  intro module id hdangling
  cases (hmem _).mp hdangling

/-- A module that comes twice, beside a class that is too short, a call of a function that no input
defines, and two dynamic calls for which no table has an entry. -/
theorem diagnostics_ofInputs_of_repeated_library :
    let app := Store.performAll "app"
      [.build (.recordFunction "main" { preserved := true }),
        .build (.recordCall ⟨1⟩ "puts" .direct false),
        .build (.recordCall ⟨1⟩ "lib.f" .virtual false),
        .build (.recordCall ⟨1⟩ "P.run" .witness false),
        .build (.recordType "C" (some "lib.B") ["main"])]
    let library := Store.performAll "lib"
      [.build (.recordFunction "f" {}), .build (.recordType "B" none ["g", "g"])]
    let inputs := [app, library, library]
    (ofInputs inputs).diagnostics =
        [.unresolvedEdge "app.main" "puts" .direct .undefinedCallee,
          .duplicateDefinition "lib.f" "lib", .duplicateDefinition "lib.B" "lib",
          .inconsistentVtable "app.C" 1,
          .unresolvedEdge "app.main" "lib.f" .virtual .noDispatchEntry,
          .unresolvedEdge "app.main" "P.run" .witness .noDispatchEntry] ∧
      (ofInputs inputs).diagnostics.Nodup ∧
      ∀ d, d ∈ (ofInputs inputs).diagnostics ↔ Reportable inputs (ofInputs inputs).store d := by
  intro app library inputs
  have happ : app.Built := ⟨⟨_, _, rfl⟩, by decide +kernel⟩
  have hlibrary : library.Built := ⟨⟨_, _, rfl⟩, by decide +kernel⟩
  have hinputs : ∀ s ∈ inputs, s.Built := by
    simp [inputs, happ, hlibrary]
  have hdiagnostics := diagnostics_ofInputs hinputs (by decide +kernel) none
  exact ⟨by decide +kernel, hdiagnostics.1, hdiagnostics.2.1⟩

end Merged

end LinkSummary
