import LinkSummary.Merge.Combine
import LinkSummary.Proofs.Store.Inheritance

/-!
# The union of stores is well-formed

Taking over a function or a type first interns names and then inserts one summary, or nothing. So
the union of any stores, damaged ones too, is well-formed. If its names fit in 32-bit ids, every
merged name of an input's function ends up defined, and with it every callee that was kept.
-/

namespace LinkSummary.Combination

variable {functions names : List String} {input : Store} {c : Combination} {id : SymbolId}
  {f : FunctionSummary}

/-! ### Interning references -/

lemma moreNames_intern (c : Combination) (name : String) :
    c.store.MoreNames (c.intern name).2.store :=
  c.store.moreNames_intern name

lemma moreNames_internReference (input : Store) (c : Combination) (id : SymbolId) :
    c.store.MoreNames (c.internReference input id).2.store := by
  rw [internReference]
  split
  · exact .refl _
  · exact c.moreNames_intern _

lemma moreNames_addBase (input : Store) (c : Combination) (base : Option SymbolId) :
    c.store.MoreNames (c.addBase input base).2.store := by
  cases base with
  | none => exact .refl _
  | some base => exact moreNames_internReference input c base

lemma moreNames_addSlots (input : Store) (c : Combination) (slots : List SymbolId) :
    c.store.MoreNames (c.addSlots input slots).2.store := by
  induction slots generalizing c with
  | nil => exact .refl _
  | cons slot slots ih =>
    have hfirst := moreNames_internReference input c slot
    rw [addSlots]
    split
    · rename_i heq
      rwa [heq] at hfirst
    · rename_i c₁ heq
      rw [heq] at hfirst
      have hrest := hfirst.trans (ih c₁)
      split
      · rename_i heq₁
        rwa [heq₁] at hrest
      · rename_i heq₁
        rwa [heq₁] at hrest

lemma moreNames_addWitnesses (input : Store) (c : Combination)
    (entries : List (SymbolId × SymbolId)) :
    c.store.MoreNames (c.addWitnesses input entries).2.store := by
  induction entries generalizing c with
  | nil => exact .refl _
  | cons entry entries ih =>
    obtain ⟨requirement, implementation⟩ := entry
    have hrequirement := moreNames_internReference input c requirement
    have himplementation := moreNames_internReference input
      (c.internReference input requirement).2 implementation
    have hall := (hrequirement.trans himplementation).trans (ih _)
    rw [addWitnesses]
    dsimp only
    split
    · exact hall
    · exact hall

/-- Of the calls that are taken over the callees are interned, and all but requirements are merged
names of functions. -/
lemma addCalls_spec (functions : List String) (input : Store) (caller : String) (c : Combination)
    (edges : List CallEdge) :
    c.store.MoreNames (c.addCalls functions input caller edges).2.store ∧
      ((c.addCalls functions input caller edges).2.store.symbols.size < 2 ^ 32 →
        ∀ edge ∈ (c.addCalls functions input caller edges).1, ∃ name,
          (c.addCalls functions input caller edges).2.store.symbols.get? edge.callee = some name ∧
            (edge.kind ≠ .witness → name ∈ functions)) := by
  induction edges generalizing c with
  | nil => exact ⟨.refl _, fun _ edge hedge => by cases hedge⟩
  | cons edge edges ih =>
    rw [addCalls]
    split
    · exact ih (c.reportDangling input edge.callee)
    · rename_i name _
      dsimp only
      split
      · exact ih (c.report _)
      · rename_i hkept
        have hfirst := c.moreNames_intern (input.mergedReference name)
        obtain ⟨hrest, hcalls⟩ := ih (c.intern (input.mergedReference name)).2
        refine ⟨hfirst.trans hrest, ?_⟩
        intro hsize edge' hedge'
        rcases List.mem_cons.mp hedge' with rfl | hedge'
        · have hbefore := Store.get?_intern (lt_of_le_of_lt hrest.size_le hsize)
          refine ⟨_, SymbolTable.get?_mono hrest.names hbefore, ?_⟩
          intro hkind
          by_contra hnot
          exact hkept ⟨hkind, hnot⟩
        · exact hcalls hsize edge' hedge'

/-! ### Taking over one summary -/

lemma store_inserted (c : Combination) (input : Store) (name : String)
    (outcome : Except SummaryError Store) :
    (c.inserted input name outcome).store = c.store ∨
      outcome = .ok (c.inserted input name outcome).store := by
  rcases outcome with e | s
  · cases e <;> exact .inl rfl
  · exact .inr rfl

/-- What taking over a function does: nothing if it has no name, and else its names and those of the
callees kept are interned, and the function is inserted unless the store refuses it. -/
lemma addFunction_cases (functions : List String) (input : Store) (c : Combination)
    (f : FunctionSummary) :
    (input.symbols.get? f.id = none ∧ (c.addFunction functions input f).store = c.store) ∨
    ∃ name id calls s, input.symbols.get? f.id = some name ∧ c.store.MoreNames s ∧
      (s.symbols.size < 2 ^ 32 → s.symbols.get? id = some (input.qualify name)) ∧
      (s.symbols.size < 2 ^ 32 → ∀ edge ∈ calls, ∃ callee,
        s.symbols.get? edge.callee = some callee ∧ (edge.kind ≠ .witness → callee ∈ functions)) ∧
      ((c.addFunction functions input f).store = s ∧
          (∀ s', s.insertFunction { f with id, calls } ≠ .ok s') ∨
        s.insertFunction { f with id, calls } = .ok (c.addFunction functions input f).store) := by
  rw [addFunction]
  split
  · rename_i hnone
    exact .inl ⟨hnone, rfl⟩
  · rename_i name hname
    right
    dsimp only
    have hfirst := c.moreNames_intern (input.qualify name)
    obtain ⟨hrest, hcalls⟩ := addCalls_spec functions input (input.qualify name)
      (c.intern (input.qualify name)).2 f.calls
    refine ⟨name, (c.intern (input.qualify name)).1, _, _, hname, hfirst.trans hrest, ?_, hcalls,
      ?_⟩
    · intro hsize
      exact SymbolTable.get?_mono hrest.names
        (Store.get?_intern (lt_of_le_of_lt hrest.size_le hsize))
    · cases hinsert : Store.insertFunction _ _ with
      | ok s => exact .inr rfl
      | error e =>
        refine .inl ⟨?_, nofun⟩
        cases e <;> rfl

lemma addType_cases (input : Store) (c : Combination) (t : TypeSummary) :
    ∃ s, c.store.MoreNames s ∧ ((c.addType input t).store = s ∨
      ∃ t', s.insertType t' = .ok (c.addType input t).store) := by
  rw [addType]
  split
  · exact ⟨c.store, .refl _, .inl rfl⟩
  · rename_i name _
    dsimp only
    have hbase := (c.moreNames_intern (input.qualify name)).trans
      (moreNames_addBase input (c.intern (input.qualify name)).2 t.base)
    have hslots := hbase.trans (moreNames_addSlots input _ t.slots)
    split
    · rename_i heq
      rw [heq] at hslots
      exact ⟨_, hslots, .inl rfl⟩
    · rename_i slots c₁ heq
      rw [heq] at hslots
      refine ⟨_, hslots.trans (moreNames_addWitnesses input c₁ t.witnesses.entries), ?_⟩
      refine (store_inserted _ input _ _).imp_right fun hinsert => ⟨_, hinsert⟩

/-! ### The invariant of the union -/

/-- The merged name of a function of an input, if it has one. -/
def mergedName (input : Store) (f : FunctionSummary) : Option String :=
  (input.symbols.get? f.id).map input.qualify

/-- A name stands for a defined function. -/
def DefinesNamed (s : Store) (name : String) : Prop :=
  ∃ id, s.symbols.get? id = some name ∧ s.definesFunction id = true

/-- What holds of the store of a union, given the merged names of all functions and those of the
functions taken over so far. -/
structure Sound (functions names : List String) (s : Store) : Prop where
  wellFormed : s.WellFormed
  /-- The callees kept are merged names of functions. -/
  resolved : s.symbols.size < 2 ^ 32 → ∀ {id f}, s.function? id = some f → ∀ edge ∈ f.calls,
    edge.kind ≠ .witness → ∃ name ∈ functions, s.symbols.get? edge.callee = some name
  defined : s.symbols.size < 2 ^ 32 → ∀ name ∈ names, DefinesNamed s name

namespace Sound

variable {s s' : Store} {t : TypeSummary} {name : String}

lemma empty (functions : List String) : Sound functions [] (.new combinedName) := by
  refine ⟨Store.wellFormed_new combinedName, ?_, ?_⟩
  · intro _ id f hf
    cases hf
  · intro _ name hname
    cases hname

lemma moreNames (h : Sound functions names s) (hmore : s.MoreNames s') :
    Sound functions names s' := by
  refine ⟨hmore.wellFormed h.wellFormed, ?_, ?_⟩
  · intro hsize id f hf edge hedge hkind
    rw [hmore.function?] at hf
    obtain ⟨callee, hcallee, hget⟩ :=
      h.resolved (lt_of_le_of_lt hmore.size_le hsize) hf edge hedge hkind
    exact ⟨callee, hcallee, SymbolTable.get?_mono hmore.names hget⟩
  · intro hsize name hname
    obtain ⟨id, hget, hdef⟩ := h.defined (lt_of_le_of_lt hmore.size_le hsize) name hname
    refine ⟨id, SymbolTable.get?_mono hmore.names hget, ?_⟩
    rwa [hmore.eq]

lemma insertFunction (h : Sound functions names s) (hinsert : s.insertFunction f = .ok s')
    (hcalls : s.symbols.size < 2 ^ 32 → ∀ edge ∈ f.calls, ∃ callee,
      s.symbols.get? edge.callee = some callee ∧ (edge.kind ≠ .witness → callee ∈ functions)) :
    Sound functions names s' := by
  have hwellFormed := h.wellFormed.insertFunction hinsert
  have hdefines : ∀ id, s'.definesFunction id = (decide (id = f.id) || s.definesFunction id) :=
    fun id => Store.definesFunction_insertFunction hinsert
  obtain ⟨-, -, rfl⟩ := Store.insertFunction_eq_ok_iff.mp hinsert
  refine ⟨hwellFormed, ?_, ?_⟩
  · intro hsize id g hg edge hedge hkind
    rw [Store.function?, IdMap.get?_insert] at hg
    split at hg
    · cases hg
      obtain ⟨callee, hget, hmem⟩ := hcalls hsize edge hedge
      exact ⟨callee, hmem hkind, hget⟩
    · exact h.resolved hsize hg edge hedge hkind
  · intro hsize name hname
    obtain ⟨id, hget, hdef⟩ := h.defined hsize name hname
    refine ⟨id, hget, ?_⟩
    rw [hdefines, hdef, Bool.or_true]

lemma insertType (h : Sound functions names s) (hinsert : s.insertType t = .ok s') :
    Sound functions names s' := by
  have hwellFormed := h.wellFormed.insertType hinsert
  obtain ⟨-, -, rfl⟩ := Store.insertType_eq_ok_iff.mp hinsert
  exact ⟨hwellFormed, h.resolved, h.defined⟩

lemma concat (h : Sound functions names s) (hname : s.symbols.size < 2 ^ 32 → DefinesNamed s name) :
    Sound functions (names ++ [name]) s := by
  refine ⟨h.wellFormed, h.resolved, ?_⟩
  intro hsize
  rw [List.forall_mem_append, List.forall_mem_singleton]
  exact ⟨h.defined hsize, hname hsize⟩

end Sound

/-- A function whose symbols are interned is defined afterwards, for it is refused only if it was
defined before. -/
lemma definesFunction_inserted {s s' : Store}
    (hinterned : ∀ x ∈ f.mentioned, s.symbols.contains x = true)
    (h : s' = s ∧ (∀ s'', s.insertFunction f ≠ .ok s'') ∨ s.insertFunction f = .ok s') :
    s'.definesFunction f.id = true := by
  rcases h with ⟨rfl, hrefused⟩ | hok
  · by_contra hnot
    exact hrefused _ (Store.insertFunction_eq_ok_iff.mpr
      ⟨hinterned, Bool.eq_false_of_not_eq_true hnot, rfl⟩)
  · rw [Store.definesFunction_insertFunction hok, decide_eq_true rfl, Bool.true_or]

lemma Sound.addFunction (h : Sound functions names c.store) (input : Store)
    (f : FunctionSummary) :
    Sound functions (names ++ (mergedName input f).toList)
      (c.addFunction functions input f).store := by
  rcases addFunction_cases functions input c f with
    ⟨hnone, heq⟩ | ⟨name, id, calls, s, hname, hmore, hid, hcalls, hinsert⟩
  · rw [mergedName, hnone, Option.map_none, Option.toList_none, List.append_nil, heq]
    exact h
  · rw [mergedName, hname, Option.map_some, Option.toList_some]
    have hsymbols : (c.addFunction functions input f).store.symbols = s.symbols := by
      rcases hinsert with ⟨heq, -⟩ | hok
      · rw [heq]
      · obtain ⟨-, -, heq⟩ := Store.insertFunction_eq_ok_iff.mp hok
        rw [heq]
    apply Sound.concat
    · rcases hinsert with ⟨heq, -⟩ | hok
      · exact heq ▸ h.moreNames hmore
      · exact (h.moreNames hmore).insertFunction hok hcalls
    · intro hsize
      rw [hsymbols] at hsize
      have hinterned : ∀ x ∈ ({ f with id, calls } : FunctionSummary).mentioned,
          s.symbols.contains x = true := by
        rw [FunctionSummary.mentioned, List.forall_mem_cons, List.forall_mem_map]
        refine ⟨SymbolTable.contains_iff.mpr ⟨_, hid hsize⟩, ?_⟩
        intro edge hedge
        obtain ⟨callee, hget, -⟩ := hcalls hsize edge hedge
        exact SymbolTable.contains_iff.mpr ⟨callee, hget⟩
      exact ⟨id, hsymbols ▸ hid hsize, definesFunction_inserted hinterned hinsert⟩

lemma Sound.addType (h : Sound functions names c.store) (input : Store) (t : TypeSummary) :
    Sound functions names (c.addType input t).store := by
  obtain ⟨s, hmore, heq | ⟨t', hinsert⟩⟩ := addType_cases input c t
  · exact heq ▸ h.moreNames hmore
  · exact (h.moreNames hmore).insertType hinsert

/-! ### All inputs -/

lemma Sound.foldl_addFunction (input : Store) (fs : List FunctionSummary)
    (h : Sound functions names c.store) :
    Sound functions (names ++ fs.filterMap (mergedName input))
      (fs.foldl (Combination.addFunction functions input) c).store := by
  induction fs generalizing names c with
  | nil => rwa [List.filterMap_nil, List.append_nil]
  | cons f fs ih =>
    have hrest := ih (h.addFunction input f)
    rw [List.append_assoc] at hrest
    have hnames : (mergedName input f).toList ++ fs.filterMap (mergedName input) =
        (f :: fs).filterMap (mergedName input) := by
      rw [List.filterMap_cons]
      cases mergedName input f <;> rfl
    rwa [hnames] at hrest

lemma Sound.foldl_addType (input : Store) (ts : List TypeSummary)
    (h : Sound functions names c.store) :
    Sound functions names (ts.foldl (Combination.addType input) c).store :=
  List.foldlRecOn (motive := fun c : Combination => Sound functions names c.store) _ _ h
    fun _ hc t _ => hc.addType input t

lemma Sound.addInput (h : Sound functions names c.store) (input : Store) :
    Sound functions (names ++ input.mergedFunctionNames) (c.addInput functions input).store :=
  (h.foldl_addFunction input input.functions.values).foldl_addType input input.types.values

lemma Sound.foldl_addInput (inputs : List Store) (h : Sound functions names c.store) :
    Sound functions (names ++ inputs.flatMap Store.mergedFunctionNames)
      (inputs.foldl (Combination.addInput functions) c).store := by
  induction inputs generalizing names c with
  | nil => rwa [List.flatMap_nil, List.append_nil]
  | cons input inputs ih =>
    have hrest := ih (h.addInput input)
    rwa [List.append_assoc] at hrest

/-! ### Flags -/

lemma flagsKnown_addFunction (functions : List String) (input : Store)
    (hc : c.store.FlagsKnown) (hf : f.flags.known = f.flags) :
    (c.addFunction functions input f).store.FlagsKnown := by
  rcases addFunction_cases functions input c f with
    ⟨-, heq⟩ | ⟨name, id, calls, s, -, hmore, -, -, ⟨heq, -⟩ | hinsert⟩
  · rwa [heq]
  · rw [heq]
    exact hmore.flagsKnown hc
  · exact (hmore.flagsKnown hc).insertFunction (f := { f with id, calls }) hf hinsert

lemma flagsKnown_addType (input : Store) (hc : c.store.FlagsKnown) (t : TypeSummary) :
    (c.addType input t).store.FlagsKnown := by
  obtain ⟨s, hmore, heq | ⟨t', hinsert⟩⟩ := addType_cases input c t
  · rw [heq]
    exact hmore.flagsKnown hc
  · exact (hmore.flagsKnown hc).insertType hinsert

lemma flagsKnown_addInput (functions : List String) (hc : c.store.FlagsKnown)
    (hinput : input.FlagsKnown) : (c.addInput functions input).store.FlagsKnown := by
  have hfunctions : (input.functions.values.foldl (addFunction functions input) c).store.FlagsKnown :=
    List.foldlRecOn (motive := fun c : Combination => c.store.FlagsKnown) _ _ hc
      fun c hc f hf => flagsKnown_addFunction functions input hc (hinput f hf)
  exact List.foldlRecOn (motive := fun c : Combination => c.store.FlagsKnown) _ _ hfunctions
    fun c hc t _ => flagsKnown_addType input hc t

/-! ### The finished union -/

lemma store_inheritSlots (c : Combination) :
    c.inheritSlots.store = c.store.inheritMissingSlots.1 := by
  have hreports : ∀ (extended : Store.Extensions) (report : SymbolId × Nat → Diagnostic)
      (c : Combination), (extended.foldl (fun c x => c.report (report x)) c).store = c.store := by
    intro extended report
    induction extended with
    | nil => exact fun c => rfl
    | cons x extended ih => exact fun c => ih (c.report (report x))
  exact hreports _ _ _

lemma sound_foldl_addInput (inputs : List Store) :
    Sound (inputs.flatMap Store.mergedFunctionNames) (inputs.flatMap Store.mergedFunctionNames)
      (inputs.foldl (addInput (inputs.flatMap Store.mergedFunctionNames)) {}).store :=
  Sound.foldl_addInput (c := {}) inputs (.empty _)

theorem wellFormed_ofInputs (inputs : List Store) : (ofInputs inputs).store.WellFormed := by
  rw [ofInputs, store_inheritSlots]
  exact (sound_foldl_addInput inputs).wellFormed.inheritMissingSlots

theorem slotsCoverBases_ofInputs (inputs : List Store) :
    (ofInputs inputs).store.SlotsCoverBases := by
  rw [ofInputs, store_inheritSlots]
  exact (sound_foldl_addInput inputs).wellFormed.typesFiled.slotsCoverBases_inheritMissingSlots

theorem flagsKnown_ofInputs {inputs : List Store} (h : ∀ s ∈ inputs, s.FlagsKnown) :
    (ofInputs inputs).store.FlagsKnown := by
  rw [ofInputs, store_inheritSlots, Store.fst_inheritMissingSlots_eq]
  exact List.foldlRecOn (motive := fun c : Combination => c.store.FlagsKnown) _ _
    (Store.flagsKnown_new combinedName) fun c hc input hinput =>
      flagsKnown_addInput _ hc (h input hinput)

/-- Every kept call but those of requirements is to a function that is defined. -/
theorem calleesDefined_ofInputs (inputs : List Store)
    (hsize : (ofInputs inputs).store.symbols.size < 2 ^ 32) :
    (ofInputs inputs).store.CalleesDefined := by
  have hsound := sound_foldl_addInput inputs
  rw [ofInputs, store_inheritSlots, Store.fst_inheritMissingSlots_eq] at hsize ⊢
  intro id f hf edge hedge hkind
  obtain ⟨name, hname, hcallee⟩ := hsound.resolved hsize hf edge hedge hkind
  obtain ⟨id', hid', hdef⟩ := hsound.defined hsize name hname
  rw [SymbolTable.get?_injective hcallee hid']
  exact hdef

end LinkSummary.Combination
