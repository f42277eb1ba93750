import LinkSummary.Proofs.Merge.Contribution
import LinkSummary.Proofs.Outline
import LinkSummary.Proofs.Store.Operation

/-!
# What an outline tells

An outline gives the functions and types of one module under their names. The outline of a store
tells all that the store tells by name, except for flags without a meaning, and nothing besides.
Functions, types and witnesses are in strictly increasing order of their names.
-/

namespace LinkSummary

/-! ### Programs of outlines -/

def CallOutline.call (c : CallOutline) : Program.Call String :=
  { callee := c.callee, kind := c.kind, preserved := c.preserved }

def FunctionOutline.function (f : FunctionOutline) : Program.Function String where
  flags := { live := f.live, preserved := f.preserved, fixedContents := f.fixedContents }
  debugName := f.debugName
  calls := f.calls.map (·.call)

def WitnessOutline.pair (w : WitnessOutline) : String × String := (w.requirement, w.implementation)

def TypeOutline.tables (t : TypeOutline) : Program.Tables String where
  base := t.base
  slots := t.vtable
  witnesses := Store.tableOf (t.witnesses.map (·.pair))

namespace Outline

/-- The functions of an outline, as definitions of its module. -/
def functionDefinitions (o : Outline) : List (Definition (Program.Function String)) :=
  o.functions.map fun f => ⟨o.moduleName, f.name, f.function⟩

def typeDefinitions (o : Outline) : List (Definition (Program.Tables String)) :=
  o.types.map fun t => ⟨o.moduleName, t.name, t.tables⟩

/-- What an outline tells of functions and types. -/
def program (o : Outline) : Program String where
  functions := Definition.first o.functionDefinitions
  types := Definition.first o.typeDefinitions

lemma map_name_functionDefinitions (o : Outline) :
    o.functionDefinitions.map (·.name) = o.functions.map (·.name) := by
  rw [functionDefinitions, List.map_map]
  rfl

lemma map_name_typeDefinitions (o : Outline) :
    o.typeDefinitions.map (·.name) = o.types.map (·.name) := by
  rw [typeDefinitions, List.map_map]
  rfl

/-- Functions, types and witnesses stand in the order of their names, and no name comes twice. -/
structure Ordered (o : Outline) : Prop where
  functions : o.functions.Pairwise (·.name < ·.name)
  types : o.types.Pairwise (·.name < ·.name)
  witnesses : ∀ t ∈ o.types, t.witnesses.Pairwise (·.requirement < ·.requirement)

variable {o : Outline} {name : String}

lemma nodup_map_of_pairwise_lt {α : Type} {name : α → String} {items : List α}
    (h : items.Pairwise fun a b => name a < name b) : (items.map name).Nodup :=
  List.pairwise_map.mpr (h.imp fun hlt => String.ne_of_lt hlt)

lemma functions_program_eq_some_iff (hnames : (o.functions.map (·.name)).Nodup)
    {F : Program.Function String} : o.program.functions name = some F ↔
      ∃ f ∈ o.functions, f.name = name ∧ f.function = F := by
  show Definition.first o.functionDefinitions name = some F ↔ _
  rw [Definition.first_eq_some_iff (o.map_name_functionDefinitions ▸ hnames), functionDefinitions]
  simp

lemma types_program_eq_some_iff (hnames : (o.types.map (·.name)).Nodup)
    {T : Program.Tables String} : o.program.types name = some T ↔
      ∃ t ∈ o.types, t.name = name ∧ t.tables = T := by
  show Definition.first o.typeDefinitions name = some T ↔ _
  rw [Definition.first_eq_some_iff (o.map_name_typeDefinitions ▸ hnames), typeDefinitions]
  simp

end Outline

/-- A program whose functions have no flags but those with a meaning. -/
def Program.known {κ : Type} (p : Program κ) : Program κ :=
  { p with functions := fun k => (p.functions k).map fun f => { f with flags := f.flags.known } }

namespace Store

variable {s s' : Store} {t : TypeSummary} {id : SymbolId}

/-- Flags with a meaning stay as they are. -/
lemma FlagsKnown.known_named (hs : s.FlagsKnown) : s.named.known = s.named := by
  rw [flagsKnown_iff] at hs
  apply Program.ext
  · funext name
    show ((s.functionNamed? name).map s.namedFunction).map _ = _
    rw [Option.map_map]
    apply Option.map_congr
    intro f hf
    obtain ⟨id, -, hf⟩ := Option.bind_eq_some_iff.mp hf
    simp [namedFunction, hs id f hf]
  · rfl

/-! ### The outline of a store -/

lemma mem_functions_outline {F : FunctionOutline} :
    F ∈ s.outline.functions ↔ ∃ id f, s.function? id = some f ∧ s.functionOutline f = F := by
  simp only [outline, mem_sortByName, List.mem_map, IdMap.mem_values_iff, function?]
  tauto

lemma mem_types_outline {T : TypeOutline} :
    T ∈ s.outline.types ↔ ∃ id t, s.type? id = some t ∧ s.typeOutline t = T := by
  simp only [outline, mem_sortByName, List.mem_map, IdMap.mem_values_iff, type?]
  tauto

/-- The outline of a store is in order. -/
theorem WellFormed.ordered_outline (hs : s.WellFormed) : s.outline.Ordered where
  functions := by
    apply pairwise_lt_sortByName
    rw [List.map_map]
    exact hs.nodup_functionNames
  types := by
    apply pairwise_lt_sortByName
    rw [List.map_map]
    exact hs.nodup_typeNames
  witnesses := by
    intro T hT
    obtain ⟨id, t, ht, rfl⟩ := mem_types_outline.mp hT
    exact pairwise_lt_sortByName (nodup_requirements hs ht)

lemma function_functionOutline (s : Store) (f : FunctionSummary) :
    (s.functionOutline f).function =
      { s.namedFunction f with flags := (s.namedFunction f).flags.known } := by
  have hcalls : (f.calls.map s.callOutline).map (·.call) = f.calls.map s.namedCall := by
    rw [List.map_map]
    rfl
  rw [FunctionOutline.function, functionOutline, hcalls]
  rfl

lemma Faithful.tables_typeOutline (hs : s.Faithful) (ht : s.type? id = some t) :
    (s.typeOutline t).tables = s.namedTables t := by
  have hordered : (s.typeOutline t).witnesses.Pairwise (·.requirement < ·.requirement) :=
    pairwise_lt_sortByName (nodup_requirements hs.wellFormed ht)
  have hpairs : (((s.typeOutline t).witnesses.map (·.pair)).map (·.1)).Nodup := by
    rw [List.map_map]
    exact Outline.nodup_map_of_pairwise_lt hordered
  have hwitnesses : tableOf ((s.typeOutline t).witnesses.map (·.pair)) =
      (s.namedTables t).witnesses := by
    funext requirement
    apply Option.ext
    intro implementation
    have hmem := mem_witnessOutlines hs ht (o := ⟨requirement, implementation⟩)
    rw [tableOf_eq_some_iff hpairs, ← hmem, List.mem_map]
    constructor
    · rintro ⟨w, hw, heq⟩
      cases heq
      exact mem_sortByName.mp hw
    · intro hw
      exact ⟨_, mem_sortByName.mpr hw, rfl⟩
  rw [TypeOutline.tables, hwitnesses]
  rfl

/-- The outline of a store tells what the store tells, but for flags without a meaning. -/
theorem Faithful.program_outline (hs : s.Faithful) : s.outline.program = s.named.known := by
  apply Program.ext
  · funext name
    apply Option.ext
    intro F
    rw [Outline.functions_program_eq_some_iff
      (Outline.nodup_map_of_pairwise_lt hs.wellFormed.ordered_outline.functions)]
    simp only [mem_functions_outline, Program.known, Option.map_eq_some_iff,
      functions_named_eq_some_iff]
    constructor
    · rintro ⟨_, ⟨id, f, hf, rfl⟩, rfl, rfl⟩
      have hid : f.id = id := (hs.wellFormed.functions hf).id_eq
      refine ⟨_, ⟨id, f, ?_, hf, rfl⟩, (s.function_functionOutline f).symm⟩
      exact hid ▸ lookup_shownName hs.size_lt (hid ▸ hs.wellFormed.contains_function hf)
    · rintro ⟨_, ⟨id, f, hlookup, hf, rfl⟩, rfl⟩
      have hid : f.id = id := (hs.wellFormed.functions hf).id_eq
      refine ⟨_, ⟨id, f, hf, rfl⟩, ?_, s.function_functionOutline f⟩
      exact (congrArg s.shownName hid).trans (shownName_of_lookup hs.size_lt hlookup)
  · funext name
    apply Option.ext
    intro T
    show _ ↔ s.named.types name = some T
    rw [Outline.types_program_eq_some_iff
      (Outline.nodup_map_of_pairwise_lt hs.wellFormed.ordered_outline.types),
      types_named_eq_some_iff]
    simp only [mem_types_outline]
    constructor
    · rintro ⟨_, ⟨id, t, ht, rfl⟩, rfl, rfl⟩
      have hid : t.id = id := (hs.wellFormed.types ht).id_eq
      refine ⟨id, t, ?_, ht, (hs.tables_typeOutline ht).symm⟩
      exact hid ▸ lookup_shownName hs.size_lt (hid ▸ hs.wellFormed.contains_type ht)
    · rintro ⟨id, t, hlookup, ht, rfl⟩
      have hid : t.id = id := (hs.wellFormed.types ht).id_eq
      refine ⟨_, ⟨id, t, ht, rfl⟩, ?_, hs.tables_typeOutline ht⟩
      exact (congrArg s.shownName hid).trans (shownName_of_lookup hs.size_lt hlookup)

/-! ### The text form -/

/-- What a store tells by name determines its text form, whatever ids stand for the names. The text
form is that of its outline, which lists functions, types and witnesses in the strict order of their
names, and tells of them what the store tells, but for flags without a meaning. -/
theorem Built.toYaml_eq_and_ordered (hs : s.Built) (hs' : s'.Built)
    (hmodule : s.moduleName = s'.moduleName) (hcomputed : s.livenessComputed = s'.livenessComputed)
    (h : s.named = s'.named) :
    s.toYaml = s'.toYaml ∧ s.toYaml = s.outline.toYaml ∧ s.outline.Ordered ∧
      s.outline.program = s.named.known := by
  have hfaithful : s.Faithful := ⟨hs.wellFormed, hs.size_lt⟩
  have hfaithful' : s'.Faithful := ⟨hs'.wellFormed, hs'.size_lt⟩
  exact ⟨toYaml_eq_of_named hfaithful hfaithful' hmodule hcomputed h, rfl,
    hs.wellFormed.ordered_outline, hfaithful.program_outline⟩

/-- Two modules with the same definitions, of which one interns other names first, and one more. -/
theorem Built.toYaml_eq_and_ordered_of_two_orders :
    let s := performAll "m" [.build (.recordType "C" none ["f"]),
      .build (.recordFunction "f" {}), .build (.recordFunction "a" { preserved := true }),
      .build (.recordCall ⟨3⟩ "f" .virtual false), .build (.recordWitness ⟨1⟩ "r" "f"),
      .build (.recordWitness ⟨1⟩ "p" "f")]
    let s' := performAll "m" [.intern "x", .build (.recordFunction "a" { preserved := true }),
      .build (.recordCall ⟨2⟩ "f" .virtual false), .build (.recordFunction "f" {}),
      .build (.recordType "C" none ["f"]), .build (.recordWitness ⟨4⟩ "p" "f"),
      .build (.recordWitness ⟨4⟩ "r" "f")]
    s.symbols.names = ["C", "f", "a", "r", "p"] ∧ s'.symbols.names = ["x", "a", "f", "C", "p", "r"] ∧
      s.toYaml = s'.toYaml ∧ s.toYaml = s.outline.toYaml ∧ s.outline.Ordered := by
  intro s s'
  have hs : s.Built := ⟨⟨"m", _, rfl⟩, by decide +kernel⟩
  have hs' : s'.Built := ⟨⟨"m", _, rfl⟩, by decide +kernel⟩
  have hnamed : s.named = s'.named := by decide +kernel
  obtain ⟨hyaml, houtline, hordered, -⟩ := hs.toYaml_eq_and_ordered hs' rfl rfl hnamed
  exact ⟨by decide +kernel, by decide +kernel, hyaml, houtline, hordered⟩

end Store

end LinkSummary
