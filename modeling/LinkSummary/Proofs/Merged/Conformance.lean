import LinkSummary.Proofs.Merged.Named
import LinkSummary.Proofs.Merged.Union

/-!
# Conformances of other modules

A call of a requirement reaches the implementation of every conformance, in whatever module the
conformance is. In a merge it does so under three conditions: the definitions of the caller and of
the conforming type are those that are kept, the requirement has the same merged name on both sides,
and no later entry of the type's table has that merged name too.
-/

namespace LinkSummary

variable {inputs : List Store}

/-- A call of a requirement by a function of an input. -/
structure RequirementCall (inputs : List Store) where
  module : Store
  caller : FunctionSummary
  edge : CallEdge
  module_mem : module ∈ inputs
  caller_mem : caller ∈ module.functions.values
  edge_mem : edge ∈ caller.calls
  kind_eq : edge.kind = .witness

/-- A function of an input that implements a requirement for a type of the input. -/
structure Conformance (inputs : List Store) where
  module : Store
  type : TypeSummary
  requirement : SymbolId
  implementation : SymbolId
  module_mem : module ∈ inputs
  type_mem : type ∈ module.types.values
  entry : type.witnesses.get? requirement = some implementation
  defined : module.definesFunction implementation = true

namespace RequirementCall

/-- The name of the requirement in the calling module. -/
def requirementName (call : RequirementCall inputs) : String :=
  call.module.shownName call.edge.callee

def mergedRequirement (call : RequirementCall inputs) : String :=
  call.module.referenceName call.edge.callee

def mergedCaller (call : RequirementCall inputs) : String :=
  call.module.definitionName call.caller.id

/-- The merge has the caller from this input: no input before defines its merged name. -/
def IsKept (call : RequirementCall inputs) : Prop :=
  ∃ before after, inputs = before ++ call.module :: after ∧
    call.mergedCaller ∉ before.flatMap Store.mergedFunctionNames

end RequirementCall

namespace Conformance

def requirementName (c : Conformance inputs) : String := c.module.shownName c.requirement

def mergedRequirement (c : Conformance inputs) : String := c.module.referenceName c.requirement

def mergedType (c : Conformance inputs) : String := c.module.definitionName c.type.id

def mergedImplementation (c : Conformance inputs) : String :=
  c.module.definitionName c.implementation

/-- The merge has the type from this input, and in its table no requirement that comes later has the
same merged name. -/
structure IsKept (c : Conformance inputs) : Prop where
  type : ∃ before after, inputs = before ++ c.module :: after ∧
    c.mergedType ∉ before.flatMap Store.mergedTypeNames
  entry : ∀ e ∈ c.type.witnesses.entries, c.requirement < e.1 →
    c.module.referenceName e.1 ≠ c.mergedRequirement

end Conformance

/-- Every conformance to a requirement with the name that a live function calls is live. -/
def SparesConformances (inputs : List Store) (m : Merged) : Prop :=
  ∀ (call : RequirementCall inputs) (c : Conformance inputs),
    call.requirementName = c.requirementName → m.isLive call.mergedCaller = some true →
      m.isLive c.mergedImplementation = some true

lemma sparesConformances_iff {m : Merged} : SparesConformances inputs m ↔
    ∀ s ∈ inputs, ∀ f ∈ s.functions.values.filter fun f => m.isLive (s.definitionName f.id) = true,
      ∀ edge ∈ f.calls.filter (·.kind = .witness), ∀ s' ∈ inputs, ∀ t ∈ s'.types.values,
        ∀ e ∈ t.witnesses.entries.filter fun e =>
            s.shownName edge.callee = s'.shownName e.1 ∧ s'.definesFunction e.2 = true,
          m.isLive (s'.definitionName e.2) = some true := by
  simp only [List.mem_filter, decide_eq_true_eq, and_imp]
  constructor
  · intro h s hs f hf hlive edge hedge hkind s' hs' t ht e he hname hdefined
    let call : RequirementCall inputs := ⟨s, f, edge, hs, hf, hedge, hkind⟩
    let c : Conformance inputs :=
      ⟨s', t, e.1, e.2, hs', ht, IdMap.mem_entries_iff.mp he, hdefined⟩
    exact h call c hname hlive
  · intro h call c hname hlive
    exact h call.module call.module_mem call.caller call.caller_mem hlive call.edge call.edge_mem
      call.kind_eq c.module c.module_mem c.type c.type_mem (c.requirement, c.implementation)
      (IdMap.mem_entries_iff.mpr c.entry) hname c.defined

instance (m : Merged) : Decidable (SparesConformances inputs m) :=
  decidable_of_iff' _ sparesConformances_iff

/-! ### Merged tables -/

namespace Store

variable {s : Store} {t : TypeSummary}

/-- The last pair with a name decides what a table has under it. -/
lemma tableOf_append_cons {before after : List (String × String)} {pair : String × String}
    (hafter : pair.1 ∉ after.map (·.1)) :
    tableOf (before ++ pair :: after) pair.1 = some pair.2 := by
  induction after using List.reverseRecOn with
  | nil => rw [tableOf_concat, Function.update_self]
  | append_singleton after last ih =>
    rw [List.map_append, List.mem_append, not_or, List.map_singleton, List.mem_singleton] at hafter
    rw [← List.cons_append, ← List.append_assoc, tableOf_concat, Function.update_of_ne hafter.2]
    exact ih hafter.1

/-- A witness is found in the merged table unless a later one takes its place. -/
lemma witnesses_mergedTables {requirement implementation : SymbolId}
    (hentry : t.witnesses.get? requirement = some implementation)
    (hlast : ∀ e ∈ t.witnesses.entries, requirement < e.1 →
      s.referenceName e.1 ≠ s.referenceName requirement) :
    (s.mergedTables t).witnesses (s.referenceName requirement) =
      some (s.referenceName implementation) := by
  obtain ⟨before, after, heq⟩ := List.append_of_mem (IdMap.mem_entries_iff.mpr hentry)
  have hsorted := t.witnesses.sorted
  rw [heq, List.pairwise_append, List.pairwise_cons] at hsorted
  have hafter : s.referenceName requirement ∉ (s.mergedWitnesses after).map (·.1) := by
    rw [mergedWitnesses, List.map_map, List.mem_map]
    rintro ⟨e, he, hname⟩
    exact hlast e (heq ▸ List.mem_append_right _ (List.mem_cons_of_mem _ he))
      (hsorted.2.1.1 e he) hname
  rw [mergedTables, heq, mergedWitnesses, List.map_append, List.map_cons]
  exact tableOf_append_cons hafter

lemma definitionName_mem_mergedFunctionNames (hs : s.WellFormed) {id : SymbolId}
    (h : s.definesFunction id = true) : s.definitionName id ∈ s.mergedFunctionNames := by
  obtain ⟨f, hf⟩ := definesFunction_iff.mp h
  rw [mergedFunctionNames_eq hs, ← (hs.functions hf).id_eq]
  exact List.mem_map.mpr ⟨f, IdMap.mem_values_iff.mpr ⟨id, hf⟩, rfl⟩

/-- A reference to a function of the store has the function's merged name. -/
lemma referenceName_of_definesFunction (hs : s.Faithful) {id : SymbolId}
    (h : s.definesFunction id = true) : s.referenceName id = s.definitionName id := by
  obtain ⟨f, hf⟩ := definesFunction_iff.mp h
  have hlookup := lookup_shownName hs.size_lt (hs.wellFormed.contains_function hf)
  rw [referenceName, mergedReference, if_pos, definitionName]
  rw [defines, hlookup, Option.any_some, Bool.or_eq_true]
  exact .inl h

end Store

namespace Merged

/-- A requirement that two modules call alike has one merged name if neither defines it. -/
lemma mergedRequirement_eq_of_not_defines {call : RequirementCall inputs} {c : Conformance inputs}
    (hname : call.requirementName = c.requirementName)
    (hcall : call.module.defines call.requirementName = false)
    (hc : c.module.defines c.requirementName = false) :
    call.mergedRequirement = c.mergedRequirement := by
  rw [RequirementCall.requirementName] at hname hcall
  rw [Conformance.requirementName] at hname hc
  rw [RequirementCall.mergedRequirement, Conformance.mergedRequirement, Store.referenceName,
    Store.referenceName, Store.mergedReference, Store.mergedReference, hcall, hc]
  exact hname

variable {call : RequirementCall inputs} {c : Conformance inputs}

/-- In the union the call leads to the implementation. -/
lemma callsInto_of_isKept (hinputs : ∀ s ∈ inputs, s.Built)
    (hsize : (combine inputs).store.symbols.size < 2 ^ 32) (hcall : call.IsKept) (hc : c.IsKept)
    (hmeets : call.mergedRequirement = c.mergedRequirement) :
    (combine inputs).store.named.CallsInto call.mergedCaller c.mergedImplementation := by
  have h : ∀ s ∈ inputs, s.WellFormed := fun s hs => (hinputs s hs).wellFormed
  have hcontinues := continues_combine h hsize
  have hmodule : c.module.Faithful :=
    ⟨h _ c.module_mem, (hinputs _ c.module_mem).size_lt⟩
  have hdefined : ((combine inputs).store.named.functions c.mergedImplementation).isSome := by
    rw [hcontinues.functions]
    refine (Contribution.isSome_functions_program_iff _ h).mpr
      (List.mem_flatMap.mpr ⟨_, c.module_mem, ?_⟩)
    exact Store.definitionName_mem_mergedFunctionNames hmodule.wellFormed c.defined
  have hcaller : (combine inputs).store.named.functions call.mergedCaller =
      some (call.module.mergedFunction (inputs.flatMap Store.mergedFunctionNames) call.caller) := by
    obtain ⟨before, after, hsplit, hfirst⟩ := hcall
    have hprogram := Contribution.functions_program_ofList
      (inputs.flatMap Store.mergedFunctionNames) (hsplit ▸ h) call.caller_mem hfirst
    rw [hcontinues.functions]
    rw [← hsplit] at hprogram
    exact hprogram
  have hholds : (combine inputs).store.named.HoldsWitness c.mergedType c.mergedRequirement
      c.mergedImplementation := by
    obtain ⟨before, after, hsplit, hfirst⟩ := hc.type
    have hprogram := Contribution.types_program_ofList
      (inputs.flatMap Store.mergedFunctionNames) (hsplit ▸ h) c.type_mem hfirst
    rw [← hsplit] at hprogram
    obtain ⟨rest, htype⟩ := hcontinues.types_some _ _ hprogram
    refine ⟨_, htype, ?_⟩
    rw [Conformance.mergedImplementation,
      ← Store.referenceName_of_definesFunction hmodule c.defined]
    exact Store.witnesses_mergedTables c.entry hc.entry
  refine ⟨hdefined, _, hcaller, call.module.mergedCall call.edge, ?_, ?_⟩
  · refine List.mem_filter.mpr ⟨List.mem_map_of_mem call.edge_mem, ?_⟩
    exact decide_eq_true (.inl call.kind_eq)
  · rw [Store.callee_mergedCall, Store.kind_mergedCall, call.kind_eq]
    exact .conformance (hmeets ▸ hholds)

/-- A live caller keeps an implementation in another module live, if the merge has both the caller
and the conforming type from these modules and the two sides agree on the requirement's merged
name. -/
theorem isLive_ofInputs_of_isKept (hinputs : ∀ s ∈ inputs, s.Built)
    (hsize : (combine inputs).store.symbols.size < 2 ^ 32) (traced : Option String)
    (hcall : call.IsKept) (hc : c.IsKept) (hmeets : call.mergedRequirement = c.mergedRequirement)
    (hlive : (ofInputs inputs traced).isLive call.mergedCaller = some true) :
    (ofInputs inputs traced).isLive c.mergedImplementation = some true := by
  have hstep := callsInto_of_isKept hinputs hsize hcall hc hmeets
  rw [isLive_ofInputs_iff hsize] at hlive ⊢
  obtain ⟨-, root, hroot, hpath⟩ := hlive
  exact ⟨hstep.1, root, hroot, hpath.tail hstep⟩

/-- A requirement that no module defines, called in one module and implemented in another. -/
theorem isLive_ofInputs_of_plugin :
    let app := Store.performAll "app" [.build (.recordFunction "main" { preserved := true }),
      .build (.recordCall ⟨1⟩ "P.run" .witness false)]
    let plugin := Store.performAll "plugin" [.build (.recordFunction "S.run" {}),
      .build (.recordType "S" none []), .build (.recordWitness ⟨2⟩ "P.run" "S.run")]
    (ofInputs [app, plugin]).isLive "app.main" = some true ∧
      (ofInputs [app, plugin]).isLive "plugin.S.run" = some true := by
  intro app plugin
  have happ : app.Built := ⟨⟨_, _, rfl⟩, by decide +kernel⟩
  have hplugin : plugin.Built := ⟨⟨_, _, rfl⟩, by decide +kernel⟩
  let call : RequirementCall [app, plugin] :=
    { module := app
      caller := { id := ⟨1⟩, flags := { preserved := true }, calls := [⟨⟨2⟩, .witness, false⟩] }
      edge := ⟨⟨2⟩, .witness, false⟩
      module_mem := by decide +kernel, caller_mem := by decide +kernel
      edge_mem := by decide +kernel, kind_eq := rfl }
  let c : Conformance [app, plugin] :=
    { module := plugin, type := { id := ⟨2⟩, witnesses := .ofList [(⟨3⟩, ⟨1⟩)] }
      requirement := ⟨3⟩, implementation := ⟨1⟩
      module_mem := by decide +kernel, type_mem := by decide +kernel
      entry := by decide +kernel, defined := by decide +kernel }
  have hcall : call.IsKept := ⟨[], [plugin], rfl, by decide +kernel⟩
  have hc : c.IsKept := ⟨⟨[app], [], rfl, by decide +kernel⟩, by decide +kernel⟩
  have hcaller : call.mergedCaller = "app.main" := by decide +kernel
  have himplementation : c.mergedImplementation = "plugin.S.run" := by decide +kernel
  have hlive : (ofInputs [app, plugin]).isLive call.mergedCaller = some true := by decide +kernel
  have hinputs : ∀ s ∈ [app, plugin], s.Built :=
    List.forall_mem_cons.mpr ⟨happ, List.forall_mem_singleton.mpr hplugin⟩
  have hkept := isLive_ofInputs_of_isKept hinputs (by decide +kernel) none hcall hc
    (mergedRequirement_eq_of_not_defines (by decide +kernel) (by decide +kernel)
      (by decide +kernel)) hlive
  rw [hcaller] at hlive
  rw [himplementation] at hkept
  exact ⟨hlive, hkept⟩

/-- Conformances may be passed over when a merged name is defined twice, which loses the conforming
type or the caller; when only one of the modules defines the requirement; and when a later entry of
the table comes to the same merged name. -/
theorem not_sparesConformances_ofInputs :
    let conforming (module type : String) := Store.performAll module
      [.build (.recordFunction "S.run" {}), .build (.recordType type none []),
        .build (.recordWitness ⟨2⟩ "P.run" "S.run")]
    let calling (module : String) (others : List Store.Operation) := Store.performAll module
      (.build (.recordFunction "main" { preserved := true }) ::
        .build (.recordCall ⟨1⟩ "P.run" .witness false) :: others)
    let both := Store.performAll "app" [.build (.recordFunction "main" { preserved := true }),
      .build (.recordCall ⟨1⟩ "P.run" .witness false), .build (.recordFunction "P.run" {}),
      .build (.recordFunction "S.run" {}), .build (.recordType "S" none []),
      .build (.recordWitness ⟨4⟩ "P.run" "S.run"),
      .build (.recordWitness ⟨4⟩ "app.P.run" "P.run")]
    let lostType := [calling "net" [.build (.recordType "http.S" none [])],
      conforming "net.http" "S"]
    let lostCaller := [Store.performAll "net"
      [.build (.recordFunction "http.main" { preserved := true })], calling "net.http" [],
      conforming "plugin" "S"]
    let renamed := [calling "app" [.build (.recordFunction "P.run" {})], conforming "plugin" "S"]
    ∀ inputs ∈ [lostType, lostCaller, renamed, [both]], (∀ s ∈ inputs, s.Built) ∧
      (inputs.map (·.moduleName)).Nodup ∧ ¬ SparesConformances inputs (ofInputs inputs) := by
  intro conforming calling both lostType lostCaller renamed
  have hsize : ∀ inputs ∈ [lostType, lostCaller, renamed, [both]], ∀ s ∈ inputs,
      s.symbols.size < 2 ^ 32 := by decide +kernel
  have hbuilt : ∀ inputs ∈ [lostType, lostCaller, renamed, [both]], ∀ s ∈ inputs, s.Built := by
    intro inputs hinputs s hs
    refine ⟨?_, hsize inputs hinputs s hs⟩
    simp only [List.mem_cons, List.not_mem_nil, or_false] at hinputs
    obtain rfl | rfl | rfl | rfl := hinputs
    all_goals
      simp only [lostType, lostCaller, renamed, List.mem_cons, List.not_mem_nil, or_false] at hs
      rcases hs with rfl | rfl | rfl <;> exact ⟨_, _, rfl⟩
  intro inputs hinputs
  refine ⟨hbuilt inputs hinputs, ?_⟩
  revert inputs
  decide +kernel

end Merged

end LinkSummary
