import LinkSummary.Merge.Combine
import LinkSummary.Proofs.Store.Interning

/-!
# What inputs contribute to a union

Apart from ids, an input contributes definitions under merged names, the names that these mention,
and reports of the calls that are left out. Of several definitions of one name the first counts. The
contributions of several inputs are put together in their order.
-/

namespace LinkSummary

/-- A definition that a module gives, under its merged name. -/
structure Definition (α : Type) where
  module : String
  name : String
  value : α

namespace Definition

variable {α : Type} {ds ds' : List (Definition α)} {d : Definition α} {name : String} {v : α}
  {report : Diagnostic}

/-! ### First definitions -/

/-- What the first definition of a name says. -/
def first (ds : List (Definition α)) (name : String) : Option α :=
  (ds.find? (·.name == name)).map (·.value)

lemma first_append : first (ds ++ ds') name = (first ds name).or (first ds' name) := by
  simp only [first, List.find?_append]
  cases ds.find? (·.name == name) <;> rfl

lemma first_singleton : first [d] name = if d.name = name then some d.value else none := by
  by_cases h : d.name = name
  · simp [first, h]
  · simp [first, h]

lemma first_eq_none_iff : first ds name = none ↔ name ∉ ds.map (·.name) := by
  simp [first, List.find?_eq_none]

lemma isSome_first_iff : (first ds name).isSome ↔ name ∈ ds.map (·.name) := by
  rw [Option.isSome_iff_ne_none, ne_eq, first_eq_none_iff, not_not]

lemma first_concat_of_mem (h : d.name ∈ ds.map (·.name)) (name : String) :
    first (ds ++ [d]) name = first ds name := by
  rw [first_append, first_singleton]
  split
  · rename_i heq
    obtain ⟨v, hv⟩ := Option.isSome_iff_exists.mp (isSome_first_iff.mpr (heq ▸ h))
    rw [hv, Option.some_or]
  · rw [Option.or_none]

lemma first_concat_of_not_mem (h : d.name ∉ ds.map (·.name)) (name : String) :
    first (ds ++ [d]) name = if name = d.name then some d.value else first ds name := by
  rw [first_append, first_singleton]
  by_cases heq : name = d.name
  · rw [heq, first_eq_none_iff.mpr h, if_pos rfl, Option.none_or]
  · rw [if_neg (Ne.symm heq), if_neg heq, Option.or_none]

lemma exists_of_first (h : first ds name = some v) : ∃ d ∈ ds, d.name = name ∧ d.value = v := by
  obtain ⟨d, hd, rfl⟩ := Option.map_eq_some_iff.mp h
  exact ⟨d, List.mem_of_find?_eq_some hd, by simpa using List.find?_some hd, rfl⟩

/-- Without repeated names every definition is the first. -/
lemma first_eq_some_iff (hds : (ds.map (·.name)).Nodup) :
    first ds name = some v ↔ ∃ d ∈ ds, d.name = name ∧ d.value = v := by
  refine ⟨exists_of_first, ?_⟩
  rintro ⟨d, hd, rfl, rfl⟩
  induction ds with
  | nil => cases hd
  | cons e ds ih =>
    rw [List.map_cons, List.nodup_cons] at hds
    rcases List.mem_cons.mp hd with rfl | hd
    · simp [first]
    · have hne : e.name ≠ d.name := by
        intro heq
        exact hds.1 (heq ▸ List.mem_map_of_mem (f := (·.name)) hd)
      have hrest := ih hds.2 hd
      simp only [first] at hrest ⊢
      rw [List.find?_cons_of_neg (by simpa using hne)]
      exact hrest

/-- Without repeated names the order does not matter. -/
lemma first_eq_of_perm (hds : (ds.map (·.name)).Nodup) (hperm : ds.Perm ds') :
    first ds = first ds' := by
  funext name
  apply Option.ext
  intro v
  rw [first_eq_some_iff hds, first_eq_some_iff ((hperm.map _).nodup_iff.mp hds)]
  simp only [hperm.mem_iff]

/-- Of the lists of several items the first one with a definition of the name decides. -/
lemma first_flatMap {β : Type} {g : β → List (Definition α)} {before after : List β} {x : β}
    (hbefore : name ∉ (before.flatMap g).map (·.name)) (hx : first (g x) name = some v) :
    first ((before ++ x :: after).flatMap g) name = some v := by
  rw [List.flatMap_append, List.flatMap_cons, first_append, first_eq_none_iff.mpr hbefore,
    Option.none_or, first_append, hx, Option.some_or]

/-! ### Repeated definitions -/

/-- A definition whose name has been defined before is reported. -/
def Repeats (ds : List (Definition α)) (report : Diagnostic) : Prop :=
  ∃ before d, before ++ [d] <+: ds ∧ d.name ∈ before.map (·.name) ∧
    report = .duplicateDefinition d.name d.module

lemma not_repeats_nil : ¬ Repeats ([] : List (Definition α)) report := by
  rintro ⟨before, d, hprefix, -⟩
  simp at hprefix

lemma repeats_concat : Repeats (ds ++ [d]) report ↔ Repeats ds report ∨
    d.name ∈ ds.map (·.name) ∧ report = .duplicateDefinition d.name d.module := by
  simp only [Repeats, List.prefix_concat_iff]
  constructor
  · rintro ⟨before, e, heq | hprefix, hmem, hreport⟩
    · obtain ⟨rfl, rfl⟩ := List.append_inj' heq rfl |>.imp_right List.singleton_inj.mp
      exact .inr ⟨hmem, hreport⟩
    · exact .inl ⟨before, e, hprefix, hmem, hreport⟩
  · rintro (⟨before, e, hprefix, hmem, hreport⟩ | ⟨hmem, hreport⟩)
    · exact ⟨before, e, .inr hprefix, hmem, hreport⟩
    · exact ⟨ds, d, .inl rfl, hmem, hreport⟩

/-- Of definitions that repeat no name among themselves those are reported whose names came
before. -/
lemma repeats_append (hds' : (ds'.map (·.name)).Nodup) : Repeats (ds ++ ds') report ↔
    Repeats ds report ∨ ∃ d ∈ ds', d.name ∈ ds.map (·.name) ∧
      report = .duplicateDefinition d.name d.module := by
  induction ds' using List.reverseRecOn with
  | nil => simp
  | append_singleton ds' d ih =>
    rw [List.map_append, List.map_singleton, List.nodup_append'] at hds'
    obtain ⟨hds', -, hdisjoint⟩ := hds'
    have hnot : d.name ∉ ds'.map (·.name) := List.disjoint_singleton.mp hdisjoint
    have hmem : d.name ∈ (ds ++ ds').map (·.name) ↔ d.name ∈ ds.map (·.name) := by
      rw [List.map_append, List.mem_append, or_iff_left hnot]
    rw [← List.append_assoc, repeats_concat, ih hds', hmem, or_assoc]
    refine or_congr_right ?_
    simp only [List.mem_append, List.mem_singleton, or_and_right, exists_or, exists_eq_left]

/-- Of several lists that repeat no name in themselves, a later one is reported for each name that
an earlier one has. -/
lemma repeats_flatMap {β : Type} {g : β → List (Definition α)} {xs : List β}
    (hg : ∀ x ∈ xs, ((g x).map (·.name)).Nodup) : Repeats (xs.flatMap g) report ↔
      ∃ before x, before ++ [x] <+: xs ∧ ∃ d ∈ g x, d.name ∈ (before.flatMap g).map (·.name) ∧
        report = .duplicateDefinition d.name d.module := by
  induction xs using List.reverseRecOn with
  | nil => simp [not_repeats_nil]
  | append_singleton xs x ih =>
    rw [List.forall_mem_append, List.forall_mem_singleton] at hg
    rw [List.flatMap_append, List.flatMap_singleton, repeats_append hg.2, ih hg.1]
    simp only [List.prefix_concat_iff]
    constructor
    · rintro (⟨before, y, hprefix, hy⟩ | hx)
      · exact ⟨before, y, .inr hprefix, hy⟩
      · exact ⟨xs, x, .inl rfl, hx⟩
    · rintro ⟨before, y, heq | hprefix, hy⟩
      · obtain ⟨rfl, rfl⟩ := List.append_inj' heq rfl |>.imp_right List.singleton_inj.mp
        exact .inr hy
      · exact .inl ⟨before, y, hprefix, hy⟩

lemma not_repeats_of_nodup (hds : (ds.map (·.name)).Nodup) (report : Diagnostic) :
    ¬ Repeats ds report := by
  rintro ⟨before, d, ⟨after, rfl⟩, hmem, -⟩
  rw [List.append_assoc, List.map_append, List.nodup_append] at hds
  exact hds.2.2 _ hmem d.name (by simp) rfl

/-- A repeated name is reported. -/
lemma nodup_iff_not_repeats : (ds.map (·.name)).Nodup ↔
    ∀ name module, ¬ Repeats ds (.duplicateDefinition name module) := by
  refine ⟨fun h name module => not_repeats_of_nodup h _, fun h => ?_⟩
  induction ds using List.reverseRecOn with
  | nil => exact .nil
  | append_singleton ds d ih =>
    simp only [repeats_concat, not_or, not_and] at h
    have hnot : d.name ∉ ds.map (·.name) := fun hmem => (h d.name d.module).2 hmem rfl
    rw [List.map_append, List.map_singleton, List.nodup_append']
    exact ⟨ih fun name module => (h name module).1, List.nodup_singleton _,
      List.disjoint_singleton.mpr hnot⟩

end Definition

/-! ### Merged names -/

namespace Store

/-- The merged name of a definition of the store. -/
def definitionName (s : Store) (id : SymbolId) : String := s.qualify (s.shownName id)

/-- The merged name of a reference of the store. -/
def referenceName (s : Store) (id : SymbolId) : String := s.mergedReference (s.shownName id)

def mergedCall (s : Store) (edge : CallEdge) : Program.Call String :=
  { callee := s.referenceName edge.callee, kind := edge.kind, preserved := edge.preserved }

@[simp] lemma callee_mergedCall (s : Store) (edge : CallEdge) :
    (s.mergedCall edge).callee = s.referenceName edge.callee := rfl

@[simp] lemma kind_mergedCall (s : Store) (edge : CallEdge) :
    (s.mergedCall edge).kind = edge.kind := rfl

end Store

/-- A call is kept if it is to a function of some input, or to a requirement. -/
def Program.Call.IsKept (functions : List String) (call : Program.Call String) : Prop :=
  call.kind = .witness ∨ call.callee ∈ functions

instance (functions : List String) : DecidablePred (Program.Call.IsKept functions) :=
  fun _ => inferInstanceAs (Decidable (_ ∨ _))

namespace Store

/-- The calls of an input that a union keeps. -/
def keptCalls (functions : List String) (s : Store) (edges : List CallEdge) :
    List (Program.Call String) :=
  (edges.map s.mergedCall).filter (·.IsKept functions)

/-- The reports of the calls that a union leaves out. -/
def droppedCalls (functions : List String) (s : Store) (caller : String)
    (edges : List CallEdge) : List Diagnostic :=
  ((edges.map s.mergedCall).filter (¬ ·.IsKept functions)).map fun call =>
    .unresolvedEdge caller call.callee call.kind .undefinedCallee

def mergedFunction (functions : List String) (s : Store) (f : FunctionSummary) :
    Program.Function String :=
  { flags := f.flags, debugName := f.debugName, calls := s.keptCalls functions f.calls }

def mergedWitnesses (s : Store) (entries : List (SymbolId × SymbolId)) : List (String × String) :=
  entries.map fun entry => (s.referenceName entry.1, s.referenceName entry.2)

def mergedTables (s : Store) (t : TypeSummary) : Program.Tables String :=
  { base := t.base.map s.referenceName
    slots := t.slots.map s.referenceName
    witnesses := tableOf (s.mergedWitnesses t.witnesses.entries) }

end Store

/-! ### Contributions -/

/-- What is contributed to a union. -/
@[ext]
structure Contribution where
  functions : List (Definition (Program.Function String)) := []
  types : List (Definition (Program.Tables String)) := []
  symbols : List String := []
  /-- The reports of calls that are left out. -/
  dropped : List Diagnostic := []

namespace Contribution

variable {α : Type} {k k' : Contribution}

/-- A contribution after another one. -/
def append (k k' : Contribution) : Contribution where
  functions := k.functions ++ k'.functions
  types := k.types ++ k'.types
  symbols := k.symbols ++ k'.symbols
  dropped := k.dropped ++ k'.dropped

instance : Append Contribution := ⟨append⟩

@[simp] lemma functions_append : (k ++ k').functions = k.functions ++ k'.functions := rfl

@[simp] lemma types_append : (k ++ k').types = k.types ++ k'.types := rfl

@[simp] lemma symbols_append : (k ++ k').symbols = k.symbols ++ k'.symbols := rfl

@[simp] lemma dropped_append : (k ++ k').dropped = k.dropped ++ k'.dropped := rfl

lemma append_assoc (k k' k'' : Contribution) : (k ++ k') ++ k'' = k ++ (k' ++ k'') := by
  ext1 <;> simp

lemma empty_append (k : Contribution) : ({} : Contribution) ++ k = k := by
  ext1 <;> simp

/-- The contributions of the items of a list. -/
def ofList (g : α → Contribution) (xs : List α) : Contribution where
  functions := xs.flatMap fun x => (g x).functions
  types := xs.flatMap fun x => (g x).types
  symbols := xs.flatMap fun x => (g x).symbols
  dropped := xs.flatMap fun x => (g x).dropped

lemma append_ofList_nil (k : Contribution) (g : α → Contribution) : k ++ ofList g [] = k := by
  ext1 <;> simp [ofList]

lemma append_ofList_cons (k : Contribution) (g : α → Contribution) (x : α) (xs : List α) :
    k ++ ofList g (x :: xs) = (k ++ g x) ++ ofList g xs := by
  ext1 <;> simp [ofList]

/-- The first definitions of all names. -/
def program (k : Contribution) : Program String where
  functions := Definition.first k.functions
  types := Definition.first k.types

section Concat

variable {d : Definition (Program.Function String)} {d' : Definition (Program.Tables String)}

lemma program_append_function_of_mem (h : d.name ∈ k.functions.map (·.name)) :
    (k ++ { functions := [d] } : Contribution).program = k.program := by
  apply Program.ext
  · exact funext (Definition.first_concat_of_mem h)
  · exact congrArg Definition.first (List.append_nil _)

lemma program_append_function_of_not_mem (h : d.name ∉ k.functions.map (·.name)) :
    (k ++ { functions := [d] } : Contribution).program = { k.program with
      functions := fun name =>
        if name = d.name then some d.value else k.program.functions name } := by
  apply Program.ext
  · exact funext (Definition.first_concat_of_not_mem h)
  · exact congrArg Definition.first (List.append_nil _)

lemma program_append_type_of_mem (h : d'.name ∈ k.types.map (·.name)) :
    (k ++ { types := [d'] } : Contribution).program = k.program := by
  apply Program.ext
  · exact congrArg Definition.first (List.append_nil _)
  · exact funext (Definition.first_concat_of_mem h)

lemma program_append_type_of_not_mem (h : d'.name ∉ k.types.map (·.name)) :
    (k ++ { types := [d'] } : Contribution).program = { k.program with
      types := fun name =>
        if name = d'.name then some d'.value else k.program.types name } := by
  apply Program.ext
  · exact congrArg Definition.first (List.append_nil _)
  · exact funext (Definition.first_concat_of_not_mem h)

end Concat

/-- What is reported of a contribution. -/
def Reports (k : Contribution) (report : Diagnostic) : Prop :=
  report ∈ k.dropped ∨ Definition.Repeats k.functions report ∨ Definition.Repeats k.types report

lemma reports_append_function {d : Definition (Program.Function String)} {report : Diagnostic} :
    (k ++ { functions := [d] } : Contribution).Reports report ↔ k.Reports report ∨
      d.name ∈ k.functions.map (·.name) ∧ report = .duplicateDefinition d.name d.module := by
  simp only [Reports, functions_append, types_append, dropped_append, List.append_nil,
    Definition.repeats_concat]
  tauto

lemma reports_append_type {d : Definition (Program.Tables String)} {report : Diagnostic} :
    (k ++ { types := [d] } : Contribution).Reports report ↔ k.Reports report ∨
      d.name ∈ k.types.map (·.name) ∧ report = .duplicateDefinition d.name d.module := by
  simp only [Reports, functions_append, types_append, dropped_append, List.append_nil,
    Definition.repeats_concat]
  tauto

/-! ### Contributions of inputs -/

def ofFunction (functions : List String) (s : Store) (f : FunctionSummary) : Contribution where
  functions := [⟨s.moduleName, s.definitionName f.id, s.mergedFunction functions f⟩]
  symbols := s.definitionName f.id :: (s.keptCalls functions f.calls).map (·.callee)
  dropped := s.droppedCalls functions (s.definitionName f.id) f.calls

def ofType (s : Store) (t : TypeSummary) : Contribution where
  types := [⟨s.moduleName, s.definitionName t.id, s.mergedTables t⟩]
  symbols := s.definitionName t.id :: t.references.map s.referenceName

/-- What an input contributes, `functions` being the merged names of all functions. -/
def ofInput (functions : List String) (s : Store) : Contribution :=
  ofList (ofFunction functions s) s.functions.values ++ ofList (ofType s) s.types.values

def ofInputs (inputs : List Store) : Contribution :=
  ofList (ofInput (inputs.flatMap Store.mergedFunctionNames)) inputs

end Contribution

/-! ### The names of the definitions -/

namespace Store

variable {s : Store}

/-- The merged names of the types that the store defines. -/
def mergedTypeNames (s : Store) : List String :=
  s.types.values.filterMap fun t => (s.symbols.get? t.id).map s.qualify

lemma qualify_injective (s : Store) : Function.Injective s.qualify := by
  intro name name' h
  simp only [qualify] at h
  split at h
  · exact h
  · exact (String.append_right_inj _).mp h

lemma mergedFunctionNames_eq (hs : s.WellFormed) :
    s.mergedFunctionNames = s.functions.values.map fun f => s.definitionName f.id := by
  rw [mergedFunctionNames, ← List.filterMap_eq_map]
  apply List.filterMap_congr
  intro f hf
  obtain ⟨id, hf⟩ := IdMap.mem_values_iff.mp hf
  have hid : f.id = id := (hs.functions hf).id_eq
  rw [get?_shownName (hid ▸ hs.contains_function hf)]
  rfl

lemma mergedTypeNames_eq (hs : s.WellFormed) :
    s.mergedTypeNames = s.types.values.map fun t => s.definitionName t.id := by
  rw [mergedTypeNames, ← List.filterMap_eq_map]
  apply List.filterMap_congr
  intro t ht
  obtain ⟨id, ht⟩ := IdMap.mem_values_iff.mp ht
  have hid : t.id = id := (hs.types ht).id_eq
  rw [get?_shownName (hid ▸ hs.contains_type ht)]
  rfl

/-- A store defines no merged name twice. -/
lemma nodup_mergedFunctionNames (hs : s.WellFormed) : s.mergedFunctionNames.Nodup := by
  have hnames := hs.nodup_functionNames.map s.qualify_injective
  rw [List.map_map] at hnames
  rw [mergedFunctionNames_eq hs]
  exact hnames

lemma nodup_mergedTypeNames (hs : s.WellFormed) : s.mergedTypeNames.Nodup := by
  have hnames := hs.nodup_typeNames.map s.qualify_injective
  rw [List.map_map] at hnames
  rw [mergedTypeNames_eq hs]
  exact hnames

end Store

namespace Contribution

variable {functions : List String} {inputs : List Store} {s : Store}

lemma functions_ofInput (functions : List String) (s : Store) :
    (ofInput functions s).functions = s.functions.values.map fun f =>
      ⟨s.moduleName, s.definitionName f.id, s.mergedFunction functions f⟩ := by
  have hnone : s.types.values.flatMap (fun t => (ofType s t).functions) = [] :=
    List.flatMap_eq_nil_iff.mpr fun _ _ => rfl
  rw [ofInput, functions_append, ofList, ofList, hnone, List.append_nil, List.map_eq_flatMap]
  rfl

lemma types_ofInput (functions : List String) (s : Store) :
    (ofInput functions s).types = s.types.values.map fun t =>
      ⟨s.moduleName, s.definitionName t.id, s.mergedTables t⟩ := by
  have hnone : s.functions.values.flatMap (fun f => (ofFunction functions s f).types) = [] :=
    List.flatMap_eq_nil_iff.mpr fun _ _ => rfl
  rw [ofInput, types_append, ofList, ofList, hnone, List.nil_append, List.map_eq_flatMap]
  rfl

lemma map_name_functions_ofInput (functions : List String) (hs : s.WellFormed) :
    (ofInput functions s).functions.map (·.name) = s.mergedFunctionNames := by
  rw [functions_ofInput, Store.mergedFunctionNames_eq hs, List.map_map]
  rfl

lemma map_name_types_ofInput (functions : List String) (hs : s.WellFormed) :
    (ofInput functions s).types.map (·.name) = s.mergedTypeNames := by
  rw [types_ofInput, Store.mergedTypeNames_eq hs, List.map_map]
  rfl

lemma map_name_functions_ofList (functions : List String) (h : ∀ s ∈ inputs, s.WellFormed) :
    (ofList (ofInput functions) inputs).functions.map (·.name) =
      inputs.flatMap Store.mergedFunctionNames := by
  rw [ofList, List.map_flatMap]
  exact List.flatMap_congr fun s hs => map_name_functions_ofInput functions (h s hs)

lemma map_name_types_ofList (functions : List String) (h : ∀ s ∈ inputs, s.WellFormed) :
    (ofList (ofInput functions) inputs).types.map (·.name) =
      inputs.flatMap Store.mergedTypeNames := by
  rw [ofList, List.map_flatMap]
  exact List.flatMap_congr fun s hs => map_name_types_ofInput functions (h s hs)

lemma functions_program_ofInput_eq_some_iff (hs : s.WellFormed) {name : String}
    {F : Program.Function String} :
    (ofInput functions s).program.functions name = some F ↔ ∃ f ∈ s.functions.values,
      s.definitionName f.id = name ∧ s.mergedFunction functions f = F := by
  have hnodup : ((ofInput functions s).functions.map (·.name)).Nodup := by
    rw [map_name_functions_ofInput functions hs]
    exact Store.nodup_mergedFunctionNames hs
  show Definition.first (ofInput functions s).functions name = some F ↔ _
  rw [Definition.first_eq_some_iff hnodup, functions_ofInput]
  simp

lemma types_program_ofInput_eq_some_iff (hs : s.WellFormed) {name : String}
    {T : Program.Tables String} : (ofInput functions s).program.types name = some T ↔
      ∃ t ∈ s.types.values, s.definitionName t.id = name ∧ s.mergedTables t = T := by
  have hnodup : ((ofInput functions s).types.map (·.name)).Nodup := by
    rw [map_name_types_ofInput functions hs]
    exact Store.nodup_mergedTypeNames hs
  show Definition.first (ofInput functions s).types name = some T ↔ _
  rw [Definition.first_eq_some_iff hnodup, types_ofInput]
  simp

/-- The definition of a name in an input counts if no input before it defines the name. -/
lemma functions_program_ofList (functions : List String) {before after : List Store}
    {f : FunctionSummary} (h : ∀ s' ∈ before ++ s :: after, s'.WellFormed)
    (hf : f ∈ s.functions.values)
    (hfirst : s.definitionName f.id ∉ before.flatMap Store.mergedFunctionNames) :
    (ofList (ofInput functions) (before ++ s :: after)).program.functions (s.definitionName f.id) =
      some (s.mergedFunction functions f) := by
  simp only [List.forall_mem_append, List.forall_mem_cons] at h
  obtain ⟨hbefore, hs, -⟩ := h
  rw [← map_name_functions_ofList functions hbefore] at hfirst
  exact Definition.first_flatMap hfirst
    ((functions_program_ofInput_eq_some_iff hs).mpr ⟨f, hf, rfl, rfl⟩)

lemma types_program_ofList (functions : List String) {before after : List Store}
    {t : TypeSummary} (h : ∀ s' ∈ before ++ s :: after, s'.WellFormed) (ht : t ∈ s.types.values)
    (hfirst : s.definitionName t.id ∉ before.flatMap Store.mergedTypeNames) :
    (ofList (ofInput functions) (before ++ s :: after)).program.types (s.definitionName t.id) =
      some (s.mergedTables t) := by
  simp only [List.forall_mem_append, List.forall_mem_cons] at h
  obtain ⟨hbefore, hs, -⟩ := h
  rw [← map_name_types_ofList functions hbefore] at hfirst
  exact Definition.first_flatMap hfirst
    ((types_program_ofInput_eq_some_iff hs).mpr ⟨t, ht, rfl, rfl⟩)

lemma isSome_functions_program_iff (functions : List String) (h : ∀ s ∈ inputs, s.WellFormed)
    {name : String} :
    ((ofList (ofInput functions) inputs).program.functions name).isSome ↔
      name ∈ inputs.flatMap Store.mergedFunctionNames := by
  rw [← map_name_functions_ofList functions h]
  exact Definition.isSome_first_iff

lemma isSome_types_program_iff (functions : List String) (h : ∀ s ∈ inputs, s.WellFormed)
    {name : String} :
    ((ofList (ofInput functions) inputs).program.types name).isSome ↔
      name ∈ inputs.flatMap Store.mergedTypeNames := by
  rw [← map_name_types_ofList functions h]
  exact Definition.isSome_first_iff

end Contribution

end LinkSummary
