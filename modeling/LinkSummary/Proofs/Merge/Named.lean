import LinkSummary.Proofs.Liveness.Named
import LinkSummary.Proofs.Merge.Contribution
import LinkSummary.Proofs.Merge.Union
import LinkSummary.Proofs.Program.Inheritance

/-!
# The union by name

Taking over a summary interns the merged names that it mentions, one after the other, and then
inserts it under ids that are as good as these names. So by name a union consists of the first
definitions that its inputs contribute, whatever ids they got.
-/

namespace LinkSummary.Combination

variable {c c' c'' : Combination} {input : Store} {functions names names' : List String}
  {dropped dropped' : List Diagnostic}

/-! ### Interning the names that are mentioned -/

/-- Some names are interned, and some calls reported as dropped. -/
structure Interns (names : List String) (dropped : List Diagnostic) (c c' : Combination) :
    Prop where
  more : c.store.MoreNames c'.store
  symbols : ∀ name, name ∈ c'.store.symbols.names ↔ name ∈ c.store.symbols.names ∨ name ∈ names
  diagnostics : ∀ d, d ∈ c'.diagnostics ↔ d ∈ c.diagnostics ∨ d ∈ dropped

lemma Interns.refl (c : Combination) : Interns [] [] c c :=
  ⟨.refl _, by simp, by simp⟩

lemma Interns.trans (h : Interns names dropped c c') (h' : Interns names' dropped' c' c'') :
    Interns (names ++ names') (dropped ++ dropped') c c'' := by
  refine ⟨h.more.trans h'.more, ?_, ?_⟩
  · intro name
    rw [h'.symbols, h.symbols, List.mem_append, or_assoc]
  · intro d
    rw [h'.diagnostics, h.diagnostics, List.mem_append, or_assoc]

lemma interns_intern (c : Combination) (name : String) :
    Interns [name] [] c (c.intern name).2 := by
  refine ⟨c.moreNames_intern name, ?_, by simp [intern]⟩
  intro other
  rw [List.mem_singleton, or_comm]
  exact SymbolTable.mem_names_insert

lemma interns_report (c : Combination) (d : Diagnostic) : Interns [] [d] c (c.report d) :=
  ⟨.refl _, by simp [report], by simp [report, Diagnostic.mem_addTo]⟩

lemma internReference_eq (c : Combination) {id : SymbolId}
    (hid : input.symbols.contains id = true) : c.internReference input id =
      (some (c.intern (input.referenceName id)).1, (c.intern (input.referenceName id)).2) := by
  rw [internReference, Store.get?_shownName hid]
  rfl

lemma addBase_spec (c : Combination) {base : Option SymbolId}
    (hbase : ∀ id, base = some id → input.symbols.contains id = true) :
    Interns (base.toList.map input.referenceName) [] c (c.addBase input base).2 ∧
      (c.addBase input base).2.store.NamesAll (c.addBase input base).1.toList
        (base.toList.map input.referenceName) := by
  cases base with
  | none => exact ⟨.refl c, .nil⟩
  | some id =>
    rw [addBase, internReference_eq c (hbase id rfl)]
    exact ⟨c.interns_intern _, .cons (Store.names_intern _ _) .nil⟩

lemma addSlots_spec (c : Combination) {slots : List SymbolId}
    (hslots : ∀ slot ∈ slots, input.symbols.contains slot = true) :
    ∃ slots' c', c.addSlots input slots = (some slots', c') ∧
      Interns (slots.map input.referenceName) [] c c' ∧
      c'.store.NamesAll slots' (slots.map input.referenceName) := by
  induction slots generalizing c with
  | nil => exact ⟨[], c, rfl, .refl c, .nil⟩
  | cons slot slots ih =>
    rw [List.forall_mem_cons] at hslots
    obtain ⟨slots', c', heq, hinterns, hnames⟩ := ih (c.intern (input.referenceName slot)).2
      hslots.2
    rw [addSlots, internReference_eq c hslots.1]
    simp only [heq]
    exact ⟨_, c', rfl, (c.interns_intern _).trans hinterns,
      .cons ((Store.names_intern _ _).mono hinterns.more) hnames⟩

lemma addWitnesses_spec (c : Combination) {entries : List (SymbolId × SymbolId)}
    (hentries : ∀ entry ∈ entries, input.symbols.contains entry.1 = true ∧
      input.symbols.contains entry.2 = true) :
    Interns ((entries.flatMap fun entry => [entry.1, entry.2]).map input.referenceName) [] c
        (c.addWitnesses input entries).2 ∧
      List.Forall₂ (c.addWitnesses input entries).2.store.NamesPair
        (c.addWitnesses input entries).1 (input.mergedWitnesses entries) := by
  induction entries generalizing c with
  | nil => exact ⟨.refl c, .nil⟩
  | cons entry entries ih =>
    obtain ⟨requirement, implementation⟩ := entry
    rw [List.forall_mem_cons] at hentries
    obtain ⟨⟨hrequirement, himplementation⟩, hentries⟩ := hentries
    have hfirst := c.interns_intern (input.referenceName requirement)
    have hsecond := (c.intern (input.referenceName requirement)).2.interns_intern
      (input.referenceName implementation)
    obtain ⟨hinterns, hnames⟩ := ih ((c.intern (input.referenceName requirement)).2.intern
      (input.referenceName implementation)).2 hentries
    rw [addWitnesses, internReference_eq c hrequirement]
    simp only [internReference_eq _ himplementation]
    refine ⟨(hfirst.trans hsecond).trans hinterns, .cons ⟨?_, ?_⟩ hnames⟩
    · exact ((Store.names_intern _ _).mono hsecond.more).mono hinterns.more
    · exact (Store.names_intern _ _).mono hinterns.more

lemma addCalls_cons_of_isKept (caller : String) (c : Combination) {edge : CallEdge}
    (edges : List CallEdge) (hedge : input.symbols.contains edge.callee = true)
    (h : (input.mergedCall edge).IsKept functions) :
    c.addCalls functions input caller (edge :: edges) =
      let (id, c) := c.intern (input.referenceName edge.callee)
      let (calls, c) := c.addCalls functions input caller edges
      ({ edge with callee := id } :: calls, c) := by
  rw [addCalls, Store.get?_shownName hedge]
  apply if_neg
  rw [← not_or, not_not]
  exact h

lemma addCalls_cons_of_not_isKept (caller : String) (c : Combination) {edge : CallEdge}
    (edges : List CallEdge) (hedge : input.symbols.contains edge.callee = true)
    (h : ¬ (input.mergedCall edge).IsKept functions) :
    c.addCalls functions input caller (edge :: edges) =
      (c.report (.unresolvedEdge caller (input.referenceName edge.callee) edge.kind
        .undefinedCallee)).addCalls functions input caller edges := by
  rw [addCalls, Store.get?_shownName hedge]
  exact if_pos (not_or.mp h)

/-- Of the calls of an input exactly those to be kept are taken over, and the others reported. -/
lemma addCalls_named (functions : List String) (caller : String) (c : Combination)
    {edges : List CallEdge} (hedges : ∀ edge ∈ edges, input.symbols.contains edge.callee = true) :
    Interns ((input.keptCalls functions edges).map (·.callee))
        (input.droppedCalls functions caller edges) c
        (c.addCalls functions input caller edges).2 ∧
      List.Forall₂ (c.addCalls functions input caller edges).2.store.NamesCall
        (c.addCalls functions input caller edges).1 (input.keptCalls functions edges) := by
  induction edges generalizing c with
  | nil => exact ⟨.refl c, .nil⟩
  | cons edge edges ih =>
    rw [List.forall_mem_cons] at hedges
    by_cases hkept : (input.mergedCall edge).IsKept functions
    · obtain ⟨hinterns, hnames⟩ := ih (c.intern (input.referenceName edge.callee)).2 hedges.2
      rw [addCalls_cons_of_isKept caller c edges hedges.1 hkept]
      constructor
      · simpa [Store.keptCalls, Store.droppedCalls, hkept] using
          (c.interns_intern _).trans hinterns
      · rw [Store.keptCalls, List.map_cons, List.filter_cons_of_pos (by simpa using hkept)]
        exact .cons ⟨(Store.names_intern _ _).mono hinterns.more, rfl, rfl⟩ hnames
    · obtain ⟨hinterns, hnames⟩ := ih (c.report (.unresolvedEdge caller
        (input.referenceName edge.callee) edge.kind .undefinedCallee)) hedges.2
      rw [addCalls_cons_of_not_isKept caller c edges hedges.1 hkept]
      constructor
      · simpa [Store.keptCalls, Store.droppedCalls, hkept] using
          (c.interns_report _).trans hinterns
      · simpa [Store.keptCalls, hkept] using hnames

/-! ### What has been collected -/

/-- By name a union under construction says what has been contributed to it. -/
structure Agrees (k : Contribution) (c : Combination) : Prop where
  wellFormed : c.store.WellFormed
  named : c.store.named = k.program
  diagnostics : ∀ d, d ∈ c.diagnostics ↔ k.Reports d

/-- A union under construction has collected a contribution. -/
structure Collects (k : Contribution) (c : Combination) : Prop where
  moduleName : c.store.moduleName = combinedName
  livenessComputed : c.store.livenessComputed = false
  symbols : ∀ name, name ∈ c.store.symbols.names ↔ name ∈ k.symbols
  agrees : c.store.symbols.size < 2 ^ 32 → c.Agrees k

variable {k : Contribution}

lemma collects_empty : Collects {} {} := by
  refine ⟨rfl, rfl, fun name => .rfl, fun _ => ⟨Store.wellFormed_new combinedName, rfl, ?_⟩⟩
  intro d
  simp [Contribution.Reports, Definition.not_repeats_nil]

lemma Collects.interns (h : Collects k c) (hinterns : Interns names dropped c c') :
    Collects (k ++ { symbols := names, dropped := dropped }) c' := by
  have hmore := hinterns.more
  refine ⟨?_, ?_, ?_, ?_⟩
  · rw [hmore.eq]
    exact h.moduleName
  · rw [hmore.eq]
    exact h.livenessComputed
  · intro name
    rw [hinterns.symbols, h.symbols, Contribution.symbols_append, List.mem_append]
  · intro hsize
    have hagrees := h.agrees (lt_of_le_of_lt hmore.size_le hsize)
    refine ⟨hmore.wellFormed hagrees.wellFormed, ?_, ?_⟩
    · rw [hmore.named hsize hagrees.wellFormed, hagrees.named]
      simp [Contribution.program]
    · intro d
      rw [hinterns.diagnostics, hagrees.diagnostics]
      simp only [Contribution.Reports, Contribution.dropped_append, Contribution.functions_append,
        Contribution.types_append, List.mem_append, List.append_nil]
      tauto

/-- A store with the same header and names. -/
def SameHeader (s s' : Store) : Prop :=
  s'.moduleName = s.moduleName ∧ s'.livenessComputed = s.livenessComputed ∧ s'.symbols = s.symbols

lemma sameHeader_of_insertFunction {s s' : Store} {f : FunctionSummary}
    (h : s.insertFunction f = .ok s') : SameHeader s s' := by
  obtain ⟨-, -, rfl⟩ := Store.insertFunction_eq_ok_iff.mp h
  exact ⟨rfl, rfl, rfl⟩

lemma sameHeader_of_insertType {s s' : Store} {t : TypeSummary}
    (h : s.insertType t = .ok s') : SameHeader s s' := by
  obtain ⟨-, -, rfl⟩ := Store.insertType_eq_ok_iff.mp h
  exact ⟨rfl, rfl, rfl⟩

lemma sameHeader_inserted (c : Combination) (input : Store) (name : String)
    {outcome : Except SummaryError Store}
    (h : ∀ s', outcome = .ok s' → SameHeader c.store s') :
    SameHeader c.store (c.inserted input name outcome).store := by
  rcases store_inserted c input name outcome with heq | hok
  · rw [heq]
    exact ⟨rfl, rfl, rfl⟩
  · exact h _ hok

/-- It remains to be seen what the union agrees with if no name is added. -/
lemma Collects.of_sameHeader {k' : Contribution} (h : Collects k c)
    (hsame : SameHeader c.store c'.store) (hsymbols : k'.symbols = k.symbols)
    (hagrees : c.store.symbols.size < 2 ^ 32 → c.Agrees k → c'.Agrees k') : Collects k' c' := by
  obtain ⟨hmodule, hcomputed, heq⟩ := hsame
  refine ⟨hmodule.trans h.moduleName, hcomputed.trans h.livenessComputed, ?_, ?_⟩
  · intro name
    rw [heq, hsymbols]
    exact h.symbols name
  · intro hsize
    rw [heq] at hsize
    exact hagrees hsize (h.agrees hsize)

/-- The inserted function is a new definition, or else repeats one. -/
lemma Agrees.insertedFunction (hsize : c.store.symbols.size < 2 ^ 32) (h : Agrees k c)
    {name : String} {f : FunctionSummary} {calls : List (Program.Call String)}
    (hid : c.store.Names f.id name) (hcalls : List.Forall₂ c.store.NamesCall f.calls calls) :
    Agrees (k ++ { functions := [⟨input.moduleName, name, f.flags, f.debugName, calls⟩] })
      (c.inserted input name (c.store.insertFunction f)) := by
  have hfaithful : c.store.Faithful := ⟨h.wellFormed, hsize⟩
  have hcontains := hid.contains hsize
  have hname := hid.shownName hsize
  have hinterned : ∀ x ∈ f.mentioned, c.store.symbols.contains x = true := by
    rw [FunctionSummary.mentioned, List.forall_mem_cons, List.forall_mem_map]
    exact ⟨hcontains, Store.contains_callees hsize hcalls⟩
  have hdefined : c.store.definesFunction f.id = true ↔ name ∈ k.functions.map (·.name) := by
    rw [Store.definesFunction_iff_named hsize hcontains, hname, h.named]
    exact Definition.isSome_first_iff
  by_cases hdef : c.store.definesFunction f.id = true
  · have hmem := hdefined.mp hdef
    obtain ⟨_, heq⟩ := Store.exists_insertFunction_eq_duplicate hinterned hdef
    rw [heq]
    refine ⟨h.wellFormed, ?_, ?_⟩
    · rw [Contribution.program_append_function_of_mem hmem]
      exact h.named
    · intro d
      rw [Contribution.reports_append_function, ← h.diagnostics]
      simp only [hmem, true_and]
      exact Diagnostic.mem_addTo
  · have hnot := hdefined.not.mp hdef
    have hnone : c.store.named.functions name = none :=
      h.named ▸ Definition.first_eq_none_iff.mpr hnot
    obtain ⟨hok, hnamed⟩ := hfaithful.insertFunction_of_names hid hcalls hnone
    rw [hok]
    refine ⟨h.wellFormed.insertFunction hok, ?_, ?_⟩
    · rw [Contribution.program_append_function_of_not_mem hnot, ← h.named]
      exact hnamed
    · intro d
      rw [Contribution.reports_append_function, ← h.diagnostics]
      simp [hnot, inserted]

lemma Agrees.insertedType (hsize : c.store.symbols.size < 2 ^ 32) (h : Agrees k c)
    {name : String} {t : TypeSummary} {T : Program.Tables String}
    (hinterned : ∀ x ∈ t.mentioned, c.store.symbols.contains x = true)
    (hid : c.store.Names t.id name) (htables : c.store.namedTables t = T) :
    Agrees (k ++ { types := [⟨input.moduleName, name, T⟩] })
      (c.inserted input name (c.store.insertType t)) := by
  have hfaithful : c.store.Faithful := ⟨h.wellFormed, hsize⟩
  have hcontains := hid.contains hsize
  have hname := hid.shownName hsize
  have hdefined : c.store.types.contains t.id = true ↔ name ∈ k.types.map (·.name) := by
    rw [Store.containsType_iff_named hsize hcontains, hname, h.named]
    exact Definition.isSome_first_iff
  by_cases hdef : c.store.types.contains t.id = true
  · have hmem := hdefined.mp hdef
    obtain ⟨_, heq⟩ := Store.exists_insertType_eq_duplicate hinterned hdef
    rw [heq]
    refine ⟨h.wellFormed, ?_, ?_⟩
    · rw [Contribution.program_append_type_of_mem hmem]
      exact h.named
    · intro d
      rw [Contribution.reports_append_type, ← h.diagnostics]
      simp only [hmem, true_and]
      exact Diagnostic.mem_addTo
  · have hnot := hdefined.not.mp hdef
    have hnone : c.store.named.types name = none := h.named ▸ Definition.first_eq_none_iff.mpr hnot
    obtain ⟨hok, hnamed⟩ := hfaithful.insertType_of_names hinterned hid hnone
    rw [hok]
    refine ⟨h.wellFormed.insertType hok, ?_, ?_⟩
    · rw [Contribution.program_append_type_of_not_mem hnot, ← h.named, ← htables]
      exact hnamed
    · intro d
      rw [Contribution.reports_append_type, ← h.diagnostics]
      simp [hnot, inserted]

/-! ### Taking over one summary -/

lemma Collects.insertedFunction (h : Collects k c) (input : Store) {name : String}
    {f : FunctionSummary} {calls : List (Program.Call String)} (hid : c.store.Names f.id name)
    (hcalls : List.Forall₂ c.store.NamesCall f.calls calls) :
    Collects (k ++ { functions := [⟨input.moduleName, name, f.flags, f.debugName, calls⟩] })
      (c.inserted input name (c.store.insertFunction f)) :=
  h.of_sameHeader (sameHeader_inserted c input name fun _ => sameHeader_of_insertFunction) (by simp)
    fun hsize hagrees => hagrees.insertedFunction hsize hid hcalls

lemma Collects.insertedType (h : Collects k c) (input : Store) {name : String} {t : TypeSummary}
    {T : Program.Tables String} (hid : c.store.Names t.id name)
    (hfits : c.store.symbols.size < 2 ^ 32 →
      (∀ x ∈ t.mentioned, c.store.symbols.contains x = true) ∧ c.store.namedTables t = T) :
    Collects (k ++ { types := [⟨input.moduleName, name, T⟩] })
      (c.inserted input name (c.store.insertType t)) :=
  h.of_sameHeader (sameHeader_inserted c input name fun _ => sameHeader_of_insertType) (by simp)
    fun hsize hagrees => hagrees.insertedType hsize (hfits hsize).1 hid (hfits hsize).2

lemma Collects.addFunction (h : Collects k c) (hinput : input.WellFormed) {f : FunctionSummary}
    (hf : f ∈ input.functions.values) :
    Collects (k ++ .ofFunction functions input f) (c.addFunction functions input f) := by
  obtain ⟨id, hf⟩ := IdMap.mem_values_iff.mp hf
  have hid : f.id = id := (hinput.functions hf).id_eq
  have hcontains : input.symbols.contains f.id = true := hid ▸ hinput.contains_function hf
  have hfirst := c.interns_intern (input.definitionName f.id)
  obtain ⟨hinterns, hcalls⟩ := addCalls_named functions (input.definitionName f.id)
    (c.intern (input.definitionName f.id)).2
    fun edge hedge => hinput.contains_callee hf hedge
  have hinserted := (h.interns (hfirst.trans hinterns)).insertedFunction input
    (f := { f with
      id := (c.intern (input.definitionName f.id)).1
      calls := (addCalls functions input (input.definitionName f.id)
        (c.intern (input.definitionName f.id)).2 f.calls).1 })
    ((Store.names_intern _ _).mono hinterns.more) hcalls
  have hk : k ++ .ofFunction functions input f = k ++
      { symbols := [input.definitionName f.id] ++
          (input.keptCalls functions f.calls).map (·.callee)
        dropped := [] ++ input.droppedCalls functions (input.definitionName f.id) f.calls } ++
      { functions := [⟨input.moduleName, input.definitionName f.id,
          input.mergedFunction functions f⟩] } := by
    ext1 <;> simp [Contribution.ofFunction]
  rw [hk, Combination.addFunction, Store.get?_shownName hcontains]
  exact hinserted

lemma Collects.addType (h : Collects k c) (hinput : input.WellFormed) {t : TypeSummary}
    (ht : t ∈ input.types.values) :
    Collects (k ++ .ofType input t) (c.addType input t) := by
  obtain ⟨id, ht⟩ := IdMap.mem_values_iff.mp ht
  have hid : t.id = id := (hinput.types ht).id_eq
  have hcontains : input.symbols.contains t.id = true := hid ▸ hinput.contains_type ht
  have hfirst := c.interns_intern (input.definitionName t.id)
  obtain ⟨hbase, hbaseNames⟩ := addBase_spec (c.intern (input.definitionName t.id)).2
    fun base hbase => hinput.contains_base ht hbase
  obtain ⟨slots, c₁, heq, hslots, hslotNames⟩ := addSlots_spec
    ((c.intern (input.definitionName t.id)).2.addBase input t.base).2
    fun slot hslot => hinput.contains_slot ht hslot
  obtain ⟨hwitnesses, hpairs⟩ := addWitnesses_spec c₁
    (fun entry hentry => hinput.contains_witness ht (IdMap.mem_entries_iff.mp hentry))
  have hnames : (c₁.addWitnesses input t.witnesses.entries).2.store.Names
      (c.intern (input.definitionName t.id)).1 (input.definitionName t.id) :=
    (Store.names_intern _ _).mono ((hbase.trans hslots).trans hwitnesses).more
  have hbaseNames := hbaseNames.mono (hslots.trans hwitnesses).more
  rw [← Option.toList_map] at hbaseNames
  have hslotNames := hslotNames.mono hwitnesses.more
  have hinserted := (h.interns (((hfirst.trans hbase).trans hslots).trans
    hwitnesses)).insertedType input (T := input.mergedTables t)
    (t :=
      { id := (c.intern (input.definitionName t.id)).1
        base := ((c.intern (input.definitionName t.id)).2.addBase input t.base).1
        slots
        witnesses := .ofList (c₁.addWitnesses input t.witnesses.entries).1 })
    hnames fun hsize =>
      ⟨Store.contains_mentioned_of_names hsize hnames hbaseNames hslotNames hpairs,
        Store.namedTables_of_names hsize hbaseNames hslotNames hpairs⟩
  have hk : k ++ .ofType input t = k ++
      { symbols := [input.definitionName t.id] ++ t.base.toList.map input.referenceName ++
          t.slots.map input.referenceName ++ (t.witnesses.entries.flatMap fun entry =>
            [entry.1, entry.2]).map input.referenceName
        dropped := [] ++ [] ++ [] ++ [] } ++
      { types := [⟨input.moduleName, input.definitionName t.id, input.mergedTables t⟩] } := by
    ext1 <;> simp [Contribution.ofType, TypeSummary.references]
  rw [hk, Combination.addType, Store.get?_shownName hcontains]
  dsimp only
  rw [show input.qualify (input.shownName t.id) = input.definitionName t.id from rfl, heq]
  exact hinserted

/-! ### All inputs -/

lemma Collects.foldl {α : Type} {xs : List α} (h : Collects k c)
    (step : Combination → α → Combination) (g : α → Contribution)
    (hstep : ∀ x ∈ xs, ∀ {k c}, Collects k c → Collects (k ++ g x) (step c x)) :
    Collects (k ++ .ofList g xs) (xs.foldl step c) := by
  induction xs generalizing k c with
  | nil =>
    rw [Contribution.append_ofList_nil]
    exact h
  | cons x xs ih =>
    rw [List.forall_mem_cons] at hstep
    rw [Contribution.append_ofList_cons]
    exact ih (hstep.1 h) hstep.2

lemma Collects.addInput (h : Collects k c) (hinput : input.WellFormed) :
    Collects (k ++ .ofInput functions input) (c.addInput functions input) := by
  have hfunctions := h.foldl (Combination.addFunction functions input)
    (.ofFunction functions input) fun f hf _ _ hc => hc.addFunction hinput hf
  have htypes := hfunctions.foldl (Combination.addType input) (.ofType input)
    fun t ht _ _ hc => hc.addType hinput ht
  rw [Contribution.append_assoc] at htypes
  exact htypes

/-- The union of some inputs before slots are inherited. -/
def collect (inputs : List Store) : Combination :=
  inputs.foldl (addInput (inputs.flatMap Store.mergedFunctionNames)) {}

theorem collects_collect {inputs : List Store} (h : ∀ s ∈ inputs, s.WellFormed) :
    Collects (.ofInputs inputs) (collect inputs) := by
  have hall := collects_empty.foldl
    (Combination.addInput (inputs.flatMap Store.mergedFunctionNames))
    (.ofInput (inputs.flatMap Store.mergedFunctionNames))
    fun s hs _ _ hc => hc.addInput (h s hs)
  rw [Contribution.empty_append] at hall
  exact hall

/-! ### The finished union -/

section Finished

variable {inputs : List Store} {d : Diagnostic}

lemma ofInputs_eq (inputs : List Store) : ofInputs inputs = (collect inputs).inheritSlots := rfl

lemma store_ofInputs (inputs : List Store) :
    (ofInputs inputs).store = (collect inputs).store.inheritMissingSlots.1 :=
  store_inheritSlots (collect inputs)

lemma symbols_ofInputs (inputs : List Store) :
    (ofInputs inputs).store.symbols = (collect inputs).store.symbols := by
  rw [store_ofInputs, Store.fst_inheritMissingSlots_eq]

lemma faithful_ofInputs (hsize : (ofInputs inputs).store.symbols.size < 2 ^ 32) :
    (ofInputs inputs).store.Faithful :=
  ⟨wellFormed_ofInputs inputs, hsize⟩

lemma moduleName_ofInputs (h : ∀ s ∈ inputs, s.WellFormed) :
    (ofInputs inputs).store.moduleName = combinedName := by
  rw [store_ofInputs, Store.fst_inheritMissingSlots_eq]
  exact (collects_collect h).moduleName

lemma livenessComputed_ofInputs (h : ∀ s ∈ inputs, s.WellFormed) :
    (ofInputs inputs).store.livenessComputed = false := by
  rw [store_ofInputs, Store.fst_inheritMissingSlots_eq]
  exact (collects_collect h).livenessComputed

/-- The names of a union do not depend on the order of its inputs, and so neither does the number
of its ids. -/
lemma mem_symbols_ofInputs (h : ∀ s ∈ inputs, s.WellFormed) {name : String} :
    name ∈ (ofInputs inputs).store.symbols.names ↔
      name ∈ (Contribution.ofInputs inputs).symbols := by
  rw [symbols_ofInputs]
  exact (collects_collect h).symbols name

lemma agrees_collect (h : ∀ s ∈ inputs, s.WellFormed)
    (hsize : (ofInputs inputs).store.symbols.size < 2 ^ 32) :
    Agrees (.ofInputs inputs) (collect inputs) :=
  (collects_collect h).agrees (symbols_ofInputs inputs ▸ hsize)

/-- By name a union consists of the first definitions of its inputs, with tables continued. -/
theorem continues_ofInputs (h : ∀ s ∈ inputs, s.WellFormed)
    (hsize : (ofInputs inputs).store.symbols.size < 2 ^ 32) :
    (Contribution.ofInputs inputs).program.Continues (ofInputs inputs).store.named := by
  have hagrees := agrees_collect h hsize
  rw [symbols_ofInputs] at hsize
  rw [store_ofInputs, ← hagrees.named]
  exact Store.Faithful.continues_inheritMissingSlots ⟨hagrees.wellFormed, hsize⟩

theorem complete_ofInputs (hsize : (ofInputs inputs).store.symbols.size < 2 ^ 32) :
    (ofInputs inputs).store.named.Complete :=
  (faithful_ofInputs hsize).complete_named (slotsCoverBases_ofInputs inputs)

lemma mem_diagnostics_inheritSlots (c : Combination) : d ∈ c.inheritSlots.diagnostics ↔
    d ∈ c.diagnostics ∨ ∃ id slot, (id, slot) ∈ c.store.inheritMissingSlots.2 ∧
      d = .inconsistentVtable ((c.store.inheritMissingSlots.1.symbols.get? id).getD "?") slot := by
  have hreports : ∀ (extended : Store.Extensions) (report : SymbolId × Nat → Diagnostic)
      (c : Combination), d ∈ (extended.foldl (fun c x => c.report (report x)) c).diagnostics ↔
        d ∈ c.diagnostics ∨ ∃ x ∈ extended, d = report x := by
    intro extended report
    induction extended with
    | nil => simp
    | cons x extended ih =>
      intro c
      rw [List.foldl_cons, ih, Combination.report, Diagnostic.mem_addTo, or_assoc]
      simp only [List.mem_cons, exists_eq_or_imp]
  rw [inheritSlots, hreports c.store.inheritMissingSlots.2 (fun x => .inconsistentVtable
    ((c.store.inheritMissingSlots.1.symbols.get? x.1).getD "?") x.2)]
  simp only [Prod.exists]

/-- The types whose tables are longer in a second program are reported. -/
def ReportsLonger (p q : Program String) (d : Diagnostic) : Prop :=
  ∃ type t t', p.types type = some t ∧ q.types type = some t' ∧
    t.slots.length < t'.slots.length ∧ d = .inconsistentVtable type t.slots.length

lemma mem_inherited_iff {s : Store} (hs : s.Faithful) : ReportsLonger s.named
    s.inheritMissingSlots.1.named d ↔ ∃ id slot, (id, slot) ∈ s.inheritMissingSlots.2 ∧
      d = .inconsistentVtable ((s.inheritMissingSlots.1.symbols.get? id).getD "?") slot := by
  have hafter := hs.inheritMissingSlots
  have hsymbols : s.inheritMissingSlots.1.symbols = s.symbols := by
    rw [Store.fst_inheritMissingSlots_eq]
  have hshown : ∀ {id t}, s.type? id = some t →
      (s.inheritMissingSlots.1.symbols.get? id).getD "?" = s.shownName id := by
    intro id t ht
    rw [hsymbols, Store.get?_shownName (hs.wellFormed.contains_type ht), Option.getD_some]
  have hsame : s.inheritMissingSlots.1.shownName = s.shownName := by
    funext id
    rw [Store.shownName, Store.shownName, hsymbols]
  constructor
  · rintro ⟨type, T, T', hT, hT', hlt, rfl⟩
    obtain ⟨id, t, hid, ht, rfl⟩ := Store.types_named_eq_some_iff.mp hT
    obtain ⟨id', t', hid', ht', rfl⟩ := Store.types_named_eq_some_iff.mp hT'
    rw [hsymbols, hid, Option.some.injEq] at hid'
    subst hid'
    refine ⟨id, t.slots.length, Store.mem_snd_inheritMissingSlots.mpr ⟨t, t', ht, ht', rfl, ?_⟩, ?_⟩
    · simpa [Store.namedTables] using hlt
    · rw [hshown ht, Store.shownName_of_lookup hs.size_lt hid]
      simp [Store.namedTables]
  · rintro ⟨id, slot, hmem, rfl⟩
    obtain ⟨t, t', ht, ht', rfl, hlt⟩ := Store.mem_snd_inheritMissingSlots.mp hmem
    refine ⟨s.shownName id, _, _, hs.types_named_eq ht, hsame ▸ hafter.types_named_eq ht', ?_, ?_⟩
    · simpa [Store.namedTables] using hlt
    · rw [hshown ht]
      simp [Store.namedTables]

/-- What a union reports: what its inputs contribute, and the tables that were continued. -/
theorem mem_diagnostics_ofInputs (h : ∀ s ∈ inputs, s.WellFormed)
    (hsize : (ofInputs inputs).store.symbols.size < 2 ^ 32) :
    d ∈ (ofInputs inputs).diagnostics ↔ (Contribution.ofInputs inputs).Reports d ∨
      ReportsLonger (Contribution.ofInputs inputs).program (ofInputs inputs).store.named d := by
  have hagrees := agrees_collect h hsize
  have hsize' : (collect inputs).store.symbols.size < 2 ^ 32 := symbols_ofInputs inputs ▸ hsize
  rw [ofInputs_eq, mem_diagnostics_inheritSlots, hagrees.diagnostics,
    ← mem_inherited_iff ⟨hagrees.wellFormed, hsize'⟩, hagrees.named, ← store_inheritSlots]

end Finished

end LinkSummary.Combination
