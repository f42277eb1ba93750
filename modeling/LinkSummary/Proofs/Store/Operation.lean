import LinkSummary.Proofs.Store.Interning
import LinkSummary.Store.Builder

/-!
# Stores made by the library's operations

A store is made by operations on a new one, in any order; an operation that fails leaves what it did
before it failed. Every operation keeps the names in their places, and as long as ids can tell the
names apart it keeps the store well-formed.
-/

namespace LinkSummary

/-- A call of the builder. -/
inductive Builder.Operation where
  | recordFunction (name : String) (flags : FunctionFlags)
  | setDebugName (function : SymbolId) (name : String)
  | recordCall (caller : SymbolId) (callee : String) (kind : CallKind) (preserved : Bool)
  | recordType (name : String) (base : Option String) (vtable : List String)
  | recordWitness (type : SymbolId) (requirement implementation : String)

/-- The builder after a call, whatever the outcome. -/
def Builder.perform (b : Builder) : Builder.Operation → Builder
  | .recordFunction name flags => (b.recordFunction name flags).2
  | .setDebugName function name => (b.setDebugName function name).2
  | .recordCall caller callee kind preserved => (b.recordCall caller callee kind preserved).2
  | .recordType name base vtable => (b.recordType name base vtable).2
  | .recordWitness type requirement implementation =>
    (b.recordWitness type requirement implementation).2

namespace Store

/-- A call on a store, or on the builder that holds it. -/
inductive Operation where
  | intern (name : String)
  | insertFunction (f : FunctionSummary)
  | insertType (t : TypeSummary)
  | setDebugName (function : SymbolId) (name : Option String)
  | markLive (function : SymbolId)
  | markLivenessComputed
  | inheritMissingSlots
  | build (call : Builder.Operation)

/-- The store of an insertion or change, or the old one if it is refused. -/
def orElse (s : Store) : Except SummaryError Store → Store
  | .ok s' => s'
  | .error _ => s

/-- The store after a call, whatever the outcome. -/
def perform (s : Store) : Operation → Store
  | .intern name => (s.intern name).2
  | .insertFunction f => s.orElse (s.insertFunction f)
  | .insertType t => s.orElse (s.insertType t)
  | .setDebugName function name => s.orElse (s.setDebugName function name)
  | .markLive function => s.orElse ((s.markLive function).map (·.2))
  | .markLivenessComputed => s.markLivenessComputed
  | .inheritMissingSlots => s.inheritMissingSlots.1
  | .build call => (Builder.perform ⟨s⟩ call).finish

/-- The flags that a call brings in are in use. -/
def Operation.FlagsKnown : Operation → Prop
  | .insertFunction f => f.flags.known = f.flags
  | .build (.recordFunction _ flags) => flags.known = flags
  | _ => True

/-- The store after some calls on a new one. -/
def performAll (moduleName : String) (operations : List Operation) : Store :=
  operations.foldl perform (new moduleName)

/-- A store made by calls, with flags in use and names that ids can tell apart. -/
structure Made (s : Store) : Prop where
  operations : ∃ moduleName operations, (∀ operation ∈ operations, operation.FlagsKnown) ∧
    s = performAll moduleName operations
  size_lt : s.symbols.size < 2 ^ 32

/-- A store made by any calls, with names that ids can tell apart. -/
structure Built (s : Store) : Prop where
  operations : ∃ moduleName operations, s = performAll moduleName operations
  size_lt : s.symbols.size < 2 ^ 32

variable {s s' : Store} {outcome : Except SummaryError Store}

lemma Made.built (h : s.Made) : s.Built := by
  obtain ⟨⟨moduleName, operations, -, heq⟩, hsize⟩ := h
  exact ⟨⟨moduleName, operations, heq⟩, hsize⟩

/-! ### One call keeps the store well-formed -/

/-- What a call has to keep, as far as ids can tell the names of the result apart. -/
structure Keeps (s s' : Store) : Prop where
  names : s.symbols.names <+: s'.symbols.names
  wellFormed : s'.symbols.size < 2 ^ 32 → s.WellFormed → s'.WellFormed

namespace Keeps

lemma refl (s : Store) : s.Keeps s := ⟨List.prefix_rfl, fun _ hs => hs⟩

lemma trans {s'' : Store} (h : s.Keeps s') (h' : s'.Keeps s'') : s.Keeps s'' := by
  refine ⟨h.names.trans h'.names, ?_⟩
  intro hsize hs
  have hsize' : s'.symbols.size < 2 ^ 32 := lt_of_le_of_lt h'.names.length_le hsize
  exact h'.wellFormed hsize (h.wellFormed hsize' hs)

lemma of_moreNames (h : s.MoreNames s') : s.Keeps s' :=
  ⟨h.names, fun _ hs => h.wellFormed hs⟩

lemma of_insertFunction {f : FunctionSummary} (h : s.insertFunction f = .ok s') : s.Keeps s' := by
  obtain ⟨-, -, heq⟩ := insertFunction_eq_ok_iff.mp h
  exact ⟨heq ▸ List.prefix_rfl, fun _ hs => hs.insertFunction h⟩

lemma of_insertType {t : TypeSummary} (h : s.insertType t = .ok s') : s.Keeps s' := by
  obtain ⟨-, -, heq⟩ := insertType_eq_ok_iff.mp h
  exact ⟨heq ▸ List.prefix_rfl, fun _ hs => hs.insertType h⟩

lemma of_raises (h : s.Raises s') : s.Keeps s' :=
  ⟨h.symbols ▸ List.prefix_rfl, fun _ hs => h.wellFormed hs⟩

lemma orElse (h : ∀ s', outcome = .ok s' → s.Keeps s') : s.Keeps (s.orElse outcome) := by
  cases outcome with
  | error e => exact refl s
  | ok s' => exact h s' rfl

end Keeps

lemma keeps_intern (s : Store) (name : String) : s.Keeps (s.intern name).2 :=
  .of_moreNames (s.moreNames_intern name)

lemma keeps_setDebugName {id : SymbolId} {name : Option String}
    (h : s.setDebugName id name = .ok s') : s.Keeps s' := by
  rw [setDebugName] at h
  split at h
  · cases h
    exact ⟨List.prefix_rfl, fun _ hs => hs.modifyFunction fun f _ hfits =>
      ⟨hfits.id_eq, hfits.interned⟩⟩
  · cases h

lemma keeps_markLive {id : SymbolId} (h : (s.markLive id).map (·.2) = .ok s') : s.Keeps s' := by
  rw [markLive] at h
  split at h
  · cases h
    exact .of_raises (s.raises_setLive id)
  · cases h

lemma keeps_inheritMissingSlots (s : Store) : s.Keeps s.inheritMissingSlots.1 := by
  have hsymbols : s.inheritMissingSlots.1.symbols = s.symbols := by
    rw [fst_inheritMissingSlots_eq]
  exact ⟨hsymbols ▸ List.prefix_rfl, fun _ hs => hs.inheritMissingSlots⟩

/-! ### Calls of the builder -/

/-- What a call of the builder does to the store: names are interned, and then one change is made
unless the call fails. -/
inductive BuilderEffect (s : Store) : Builder.Operation → Store → Prop
  | names {call : Builder.Operation} {s' : Store} (hnames : s.MoreNames s') :
    BuilderEffect s call s'
  | recordFunction {name : String} {flags : FunctionFlags} {id : SymbolId} {u s' : Store}
    (hnames : s.MoreNames u) (hinsert : u.insertFunction { id, flags } = .ok s') :
    BuilderEffect s (.recordFunction name flags) s'
  | setDebugName {function : SymbolId} {name : String} {s' : Store}
    (hset : s.setDebugName function (some name) = .ok s') :
    BuilderEffect s (.setDebugName function name) s'
  | recordCall {caller id : SymbolId} {callee : String} {kind : CallKind} {preserved : Bool}
    {u : Store} (hnames : s.MoreNames u) (hcallee : u.Names id callee) :
    BuilderEffect s (.recordCall caller callee kind preserved)
      { u with functions :=
        u.functions.modify caller (·.addCall { callee := id, kind, preserved }) }
  | recordType {name : String} {base : Option String} {vtable : List String} {t : TypeSummary}
    {u s' : Store} (hnames : s.MoreNames u)
    (hslots : Builder.slotConflict? u t.id t.base t.slots.length = none)
    (hinsert : u.insertType t = .ok s') : BuilderEffect s (.recordType name base vtable) s'
  | recordWitness {type r i : SymbolId} {requirement implementation : String} {u : Store}
    (hnames : s.MoreNames u) (hrequirement : u.Names r requirement)
    (himplementation : u.Names i implementation) :
    BuilderEffect s (.recordWitness type requirement implementation)
      { u with types := u.types.modify type fun t =>
        { t with witnesses := t.witnesses.insert r i } }

/-- Recording a type interns its name, its base and its slots. Then the slots are checked, and the
type is inserted. -/
lemma exists_recordType_eq (b : Builder) (name : String) (base : Option String)
    (vtable : List String) : ∃ t u, b.store.MoreNames u ∧ u.Names t.id name ∧
      u.NamesAll t.base.toList base.toList ∧ u.NamesAll t.slots vtable ∧ t.witnesses = .empty ∧
      b.recordType name base vtable =
        match Builder.slotConflict? u t.id t.base t.slots.length with
        | some e => (.error e, ⟨u⟩)
        | none =>
          match u.insertType t with
          | .ok s => (.ok t.id, ⟨s⟩)
          | .error e => (.error e, ⟨u⟩) := by
  have hname := names_intern b.store name
  have hmore := b.store.moreNames_intern name
  cases base with
  | none =>
    have hslots := moreNames_internAll (b.store.intern name).2 vtable
    exact ⟨{ id := _, base := none, slots := _ }, _, hmore.trans hslots, hname.mono hslots, .nil,
      namesAll_internAll _ vtable, rfl, rfl⟩
  | some base =>
    have hbase := moreNames_intern (b.store.intern name).2 base
    have hslots := moreNames_internAll ((b.store.intern name).2.intern base).2 vtable
    exact ⟨{ id := _, base := some _, slots := _ }, _, (hmore.trans hbase).trans hslots,
      (hname.mono hbase).mono hslots, .cons ((names_intern _ base).mono hslots) .nil,
      namesAll_internAll _ vtable, rfl, rfl⟩

theorem builderEffect_perform (b : Builder) (call : Builder.Operation) :
    BuilderEffect b.store call (b.perform call).store := by
  cases call with
  | recordFunction name flags =>
    have hname := b.store.moreNames_intern name
    rw [Builder.perform, Builder.recordFunction]
    dsimp only
    split
    · exact .recordFunction hname ‹_›
    · exact .names hname
  | setDebugName function name =>
    rw [Builder.perform, Builder.setDebugName]
    split
    · exact .setDebugName ‹_›
    · exact .names (.refl _)
  | recordCall caller callee kind preserved =>
    rw [Builder.perform, Builder.recordCall]
    split
    · exact .recordCall (b.store.moreNames_intern callee) (names_intern b.store callee)
    · split
      · exact .names (.refl _)
      · exact .names (.refl _)
  | recordType name base vtable =>
    obtain ⟨t, u, hnames, -, -, -, -, heq⟩ := exists_recordType_eq b name base vtable
    rw [Builder.perform, heq]
    split
    · exact .names hnames
    · split
      · exact .recordType hnames ‹_› ‹_›
      · exact .names hnames
  | recordWitness type requirement implementation =>
    have hrequirement := b.store.moreNames_intern requirement
    have himplementation := moreNames_intern (b.store.intern requirement).2 implementation
    rw [Builder.perform, Builder.recordWitness]
    dsimp only
    split
    · exact .recordWitness (hrequirement.trans himplementation)
        ((names_intern _ requirement).mono himplementation) (names_intern _ implementation)
    · exact .names (hrequirement.trans himplementation)

namespace Keeps

lemma addCall (caller : SymbolId) {edge : CallEdge} {callee : String}
    (hcallee : s.Names edge.callee callee) :
    s.Keeps { s with functions := s.functions.modify caller (·.addCall edge) } := by
  refine ⟨List.prefix_rfl, ?_⟩
  intro hsize hs
  apply hs.modifyFunction
  intro f _ hfits
  refine ⟨hfits.id_eq, ?_⟩
  intro x hx
  rw [FunctionSummary.mentioned, FunctionSummary.addCall, List.map_append, ← List.cons_append,
    List.mem_append] at hx
  rcases hx with hx | hx
  · exact hfits.interned x hx
  · rw [List.map_singleton, List.mem_singleton] at hx
    exact hx ▸ hcallee.contains hsize

lemma addWitness (type : SymbolId) {r i : SymbolId} {requirement implementation : String}
    (hrequirement : s.Names r requirement) (himplementation : s.Names i implementation) :
    s.Keeps { s with types := s.types.modify type fun t =>
      { t with witnesses := t.witnesses.insert r i } } := by
  refine ⟨List.prefix_rfl, ?_⟩
  intro hsize hs
  apply hs.modifyType
  intro t _ hfits
  refine ⟨hfits.id_eq, ?_⟩
  intro x hx
  rcases TypeSummary.mem_mentioned.mp hx with hx | hx | hx | ⟨r', i', hentry, hx⟩
  · exact hfits.interned x (TypeSummary.mem_mentioned.mpr (.inl hx))
  · exact hfits.interned x (TypeSummary.mem_mentioned.mpr (.inr (.inl hx)))
  · exact hfits.interned x (TypeSummary.mem_mentioned.mpr (.inr (.inr (.inl hx))))
  · rw [IdMap.get?_insert] at hentry
    split at hentry
    · rename_i heq
      cases hentry
      rcases hx with rfl | rfl
      · exact heq ▸ hrequirement.contains hsize
      · exact himplementation.contains hsize
    · refine hfits.interned x (TypeSummary.mem_mentioned.mpr ?_)
      exact .inr (.inr (.inr ⟨r', i', hentry, hx⟩))

end Keeps

lemma BuilderEffect.keeps {call : Builder.Operation} (h : BuilderEffect s call s') :
    s.Keeps s' := by
  cases h with
  | names hnames => exact .of_moreNames hnames
  | recordFunction hnames hinsert =>
    exact (Keeps.of_moreNames hnames).trans (.of_insertFunction hinsert)
  | setDebugName hset => exact keeps_setDebugName hset
  | recordCall hnames hcallee => exact (Keeps.of_moreNames hnames).trans (.addCall _ hcallee)
  | recordType hnames _ hinsert => exact (Keeps.of_moreNames hnames).trans (.of_insertType hinsert)
  | recordWitness hnames hrequirement himplementation =>
    exact (Keeps.of_moreNames hnames).trans (.addWitness _ hrequirement himplementation)

/-! ### All calls -/

theorem keeps_perform (s : Store) (operation : Operation) : s.Keeps (s.perform operation) := by
  cases operation with
  | intern name => exact s.keeps_intern name
  | insertFunction f => exact .orElse fun _ h => .of_insertFunction h
  | insertType t => exact .orElse fun _ h => .of_insertType h
  | setDebugName function name => exact .orElse fun _ h => keeps_setDebugName h
  | markLive function => exact .orElse fun _ h => keeps_markLive h
  | markLivenessComputed => exact .of_raises s.raises_markLivenessComputed
  | inheritMissingSlots => exact s.keeps_inheritMissingSlots
  | build call => exact (builderEffect_perform ⟨s⟩ call).keeps

lemma keeps_foldl_perform (s : Store) (operations : List Operation) :
    s.Keeps (operations.foldl perform s) := by
  induction operations generalizing s with
  | nil => exact .refl s
  | cons operation operations ih => exact (s.keeps_perform operation).trans (ih _)

theorem Built.wellFormed (h : s.Built) : s.WellFormed := by
  obtain ⟨⟨moduleName, operations, rfl⟩, hsize⟩ := h
  exact (keeps_foldl_perform _ operations).wellFormed hsize (wellFormed_new moduleName)

theorem Made.wellFormed (h : s.Made) : s.WellFormed :=
  h.built.wellFormed

/-! ### Flags -/

lemma FlagsKnown.orElse (hs : s.FlagsKnown) (h : ∀ s', outcome = .ok s' → s'.FlagsKnown) :
    (s.orElse outcome).FlagsKnown := by
  cases outcome with
  | error e => exact hs
  | ok s' => exact h s' rfl

lemma FlagsKnown.setDebugName {id : SymbolId} {name : Option String} (hs : s.FlagsKnown)
    (h : s.setDebugName id name = .ok s') : s'.FlagsKnown := by
  rw [Store.setDebugName] at h
  split at h
  · cases h
    exact hs.modifyFunction fun f hf => hf
  · cases h

lemma BuilderEffect.flagsKnown {call : Builder.Operation} (h : BuilderEffect s call s')
    (hs : s.FlagsKnown) (hcall : Operation.FlagsKnown (.build call)) : s'.FlagsKnown := by
  cases h with
  | names hnames => exact hnames.flagsKnown hs
  | recordFunction hnames hinsert =>
    exact (hnames.flagsKnown hs).insertFunction (f := { id := _, flags := _ }) hcall hinsert
  | setDebugName hset => exact hs.setDebugName hset
  | recordCall hnames _ => exact (hnames.flagsKnown hs).modifyFunction fun f hf => hf
  | recordType hnames _ hinsert => exact (hnames.flagsKnown hs).insertType hinsert
  | recordWitness hnames _ _ => exact hnames.flagsKnown hs

lemma FlagsKnown.perform {operation : Operation} (hs : s.FlagsKnown)
    (h : operation.FlagsKnown) : (s.perform operation).FlagsKnown := by
  cases operation with
  | intern name => exact (s.moreNames_intern name).flagsKnown hs
  | insertFunction f => exact hs.orElse fun _ hinsert => hs.insertFunction h hinsert
  | insertType t => exact hs.orElse fun _ hinsert => hs.insertType hinsert
  | setDebugName function name => exact hs.orElse fun _ hset => hs.setDebugName hset
  | markLive function =>
    apply hs.orElse
    intro s' hmark
    rw [Store.markLive] at hmark
    split at hmark
    · cases hmark
      exact (s.raises_setLive function).flagsKnown hs
    · cases hmark
  | markLivenessComputed => exact hs
  | inheritMissingSlots =>
    rw [Store.perform, fst_inheritMissingSlots_eq]
    exact hs
  | build call => exact (builderEffect_perform ⟨s⟩ call).flagsKnown hs h

theorem Made.flagsKnown (h : s.Made) : s.FlagsKnown := by
  obtain ⟨⟨moduleName, operations, hknown, rfl⟩, -⟩ := h
  exact List.foldlRecOn (motive := FlagsKnown) _ _ (flagsKnown_new moduleName)
    fun s hs operation hoperation => hs.perform (hknown operation hoperation)

/-! ### Types under their own ids -/

namespace TypesFiled

lemma orElse (hs : s.TypesFiled) (h : ∀ s', outcome = .ok s' → s'.TypesFiled) :
    (s.orElse outcome).TypesFiled := by
  cases outcome with
  | error e => exact hs
  | ok s' => exact h s' rfl

lemma of_types_eq (hs : s.TypesFiled) (h : s'.types = s.types) : s'.TypesFiled := by
  intro id t ht
  rw [type?, h] at ht
  exact hs id t ht

lemma insertFunction {f : FunctionSummary} (hs : s.TypesFiled)
    (h : s.insertFunction f = .ok s') : s'.TypesFiled := by
  obtain ⟨-, -, rfl⟩ := insertFunction_eq_ok_iff.mp h
  exact hs

lemma insertType {t : TypeSummary} (hs : s.TypesFiled) (h : s.insertType t = .ok s') :
    s'.TypesFiled := by
  obtain ⟨-, -, rfl⟩ := insertType_eq_ok_iff.mp h
  intro id u hu
  rw [type?, IdMap.get?_insert] at hu
  split at hu
  · rename_i heq
    cases hu
    exact heq.symm
  · exact hs id u hu

lemma setDebugName {id : SymbolId} {name : Option String} (hs : s.TypesFiled)
    (h : s.setDebugName id name = .ok s') : s'.TypesFiled := by
  rw [Store.setDebugName] at h
  split at h
  · cases h
    exact hs
  · cases h

lemma modifyType {g : TypeSummary → TypeSummary} (hs : s.TypesFiled) (type : SymbolId)
    (hg : ∀ t, (g t).id = t.id) :
    TypesFiled { s with types := s.types.modify type g } := by
  intro id u hu
  rw [type?, IdMap.get?_modify] at hu
  split at hu
  · obtain ⟨t, ht, rfl⟩ := Option.map_eq_some_iff.mp hu
    exact (hg t).trans (hs id t ht)
  · exact hs id u hu

lemma inheritMissingSlots (hs : s.TypesFiled) : s.inheritMissingSlots.1.TypesFiled :=
  inheritRounds_induction (P := fun acc => acc.1.TypesFiled) (fun _ h => h.inheritRound) _ hs

end TypesFiled

lemma BuilderEffect.typesFiled {call : Builder.Operation} (h : BuilderEffect s call s')
    (hs : s.TypesFiled) : s'.TypesFiled := by
  cases h with
  | names hnames => exact hnames.typesFiled hs
  | recordFunction hnames hinsert => exact (hnames.typesFiled hs).insertFunction hinsert
  | setDebugName hset => exact hs.setDebugName hset
  | recordCall hnames _ => exact hnames.typesFiled hs
  | recordType hnames _ hinsert => exact (hnames.typesFiled hs).insertType hinsert
  | recordWitness hnames _ _ => exact (hnames.typesFiled hs).modifyType _ fun _ => rfl

lemma TypesFiled.perform (hs : s.TypesFiled) (operation : Operation) :
    (s.perform operation).TypesFiled := by
  cases operation with
  | intern name => exact (s.moreNames_intern name).typesFiled hs
  | insertFunction f => exact hs.orElse fun _ h => hs.insertFunction h
  | insertType t => exact hs.orElse fun _ h => hs.insertType h
  | setDebugName function name => exact hs.orElse fun _ h => hs.setDebugName h
  | markLive function =>
    apply hs.orElse
    intro s' hmark
    rw [Store.markLive] at hmark
    split at hmark
    · cases hmark
      exact hs.of_types_eq (s.raises_setLive function).types
    · cases hmark
  | markLivenessComputed => exact hs
  | inheritMissingSlots => exact hs.inheritMissingSlots
  | build call => exact (builderEffect_perform ⟨s⟩ call).typesFiled hs

/-- Types are filed under their own ids even where ids cannot tell all names apart. -/
theorem typesFiled_performAll (moduleName : String) (operations : List Operation) :
    (performAll moduleName operations).TypesFiled :=
  List.foldlRecOn (motive := TypesFiled) _ _ nofun fun _ hs operation _ => hs.perform operation

end Store

end LinkSummary
