import LinkSummary.Proofs.IdMap
import LinkSummary.Proofs.Symbol.Table
import LinkSummary.Store.Basic

/-!
# Well-formed stores

In a well-formed store every function and type is filed under its own id, and all symbols that it
mentions are interned. Insertion checks both, and interning more names keeps them.
-/

namespace LinkSummary

/-! ### Entries of a store -/

/-- The symbols that a function mentions: its own and those of its callees. -/
def FunctionSummary.mentioned (f : FunctionSummary) : List SymbolId :=
  f.id :: f.calls.map (·.callee)

/-- The symbols that a type mentions: its own and those that it refers to. -/
def TypeSummary.mentioned (t : TypeSummary) : List SymbolId :=
  t.id :: t.references

/-- A function may stand under an id, beside a symbol table. -/
structure FunctionSummary.FitsAt (symbols : SymbolTable) (id : SymbolId) (f : FunctionSummary) :
    Prop where
  id_eq : f.id = id
  interned : ∀ x ∈ f.mentioned, symbols.contains x = true

/-- A type may stand under an id, beside a symbol table. -/
structure TypeSummary.FitsAt (symbols : SymbolTable) (id : SymbolId) (t : TypeSummary) : Prop where
  id_eq : t.id = id
  interned : ∀ x ∈ t.mentioned, symbols.contains x = true

lemma FunctionSummary.FitsAt.mono {symbols symbols' : SymbolTable} {id : SymbolId}
    {f : FunctionSummary} (hf : f.FitsAt symbols id) (h : symbols.names <+: symbols'.names) :
    f.FitsAt symbols' id :=
  ⟨hf.id_eq, fun x hx => SymbolTable.contains_mono h (hf.interned x hx)⟩

lemma TypeSummary.FitsAt.mono {symbols symbols' : SymbolTable} {id : SymbolId}
    {t : TypeSummary} (ht : t.FitsAt symbols id) (h : symbols.names <+: symbols'.names) :
    t.FitsAt symbols' id :=
  ⟨ht.id_eq, fun x hx => SymbolTable.contains_mono h (ht.interned x hx)⟩

/-- What a function mentions is in use, and so it is not the absent marker. -/
lemma FunctionSummary.FitsAt.mentioned {symbols : SymbolTable} {id : SymbolId}
    {f : FunctionSummary} (hf : f.FitsAt symbols id) :
    ∀ x ∈ f.mentioned, symbols.contains x = true ∧ x ≠ .absent :=
  fun x hx => ⟨hf.interned x hx, SymbolTable.ne_absent_of_contains (hf.interned x hx)⟩

lemma TypeSummary.FitsAt.mentioned {symbols : SymbolTable} {id : SymbolId} {t : TypeSummary}
    (ht : t.FitsAt symbols id) : ∀ x ∈ t.mentioned, symbols.contains x = true ∧ x ≠ .absent :=
  fun x hx => ⟨ht.interned x hx, SymbolTable.ne_absent_of_contains (ht.interned x hx)⟩

lemma TypeSummary.mem_mentioned {t : TypeSummary} {x : SymbolId} :
    x ∈ t.mentioned ↔ x = t.id ∨ t.base = some x ∨ x ∈ t.slots ∨
      ∃ requirement implementation, t.witnesses.get? requirement = some implementation ∧
        (x = requirement ∨ x = implementation) := by
  simp only [mentioned, references, List.mem_cons, List.mem_append, Option.mem_toList,
    List.mem_flatMap, Prod.exists, IdMap.mem_entries_iff, List.not_mem_nil,
    or_false, or_assoc]

namespace Store

variable {s s' : Store} {id : SymbolId} {f : FunctionSummary} {t : TypeSummary} {name : String}

/-- Functions and types are filed under their own ids and mention interned symbols only. -/
structure WellFormed (s : Store) : Prop where
  functions : ∀ {id f}, s.function? id = some f → f.FitsAt s.symbols id
  types : ∀ {id t}, s.type? id = some t → t.FitsAt s.symbols id

lemma WellFormed.id_eq_of_mem_functions (hs : s.WellFormed) :
    ∀ e ∈ s.functions.entries, e.2.id = e.1 :=
  fun _ he => (hs.functions (IdMap.mem_entries_iff.mp he)).id_eq

/-- Types are filed under their own ids. -/
def TypesFiled (s : Store) : Prop :=
  ∀ id t, s.type? id = some t → t.id = id

lemma TypesFiled.id_eq_of_mem (hs : s.TypesFiled) : ∀ e ∈ s.types.entries, e.2.id = e.1 :=
  fun e he => hs e.1 e.2 (IdMap.mem_entries_iff.mp he)

lemma WellFormed.typesFiled (hs : s.WellFormed) : s.TypesFiled :=
  fun _ _ ht => (hs.types ht).id_eq

lemma WellFormed.id_eq_of_mem_types (hs : s.WellFormed) : ∀ e ∈ s.types.entries, e.2.id = e.1 :=
  hs.typesFiled.id_eq_of_mem

/-- No function has a flag other than those in use. -/
def FlagsKnown (s : Store) : Prop :=
  ∀ f ∈ s.functions.values, f.flags.known = f.flags

/-- Every direct and every virtual call has a defined function as its callee. -/
def CalleesDefined (s : Store) : Prop :=
  ∀ {id f}, s.function? id = some f → ∀ edge ∈ f.calls, edge.kind ≠ .witness →
    s.definesFunction edge.callee = true

lemma flagsKnown_iff :
    s.FlagsKnown ↔ ∀ id f, s.function? id = some f → f.flags.known = f.flags := by
  simp only [FlagsKnown, IdMap.mem_values_iff, function?, forall_exists_index]
  exact forall_comm

lemma wellFormed_new (moduleName : String) : (new moduleName).WellFormed :=
  ⟨nofun, nofun⟩

lemma flagsKnown_new (moduleName : String) : (new moduleName).FlagsKnown :=
  fun _ h => by cases h

/-! ### Definedness -/

lemma definesFunction_iff : s.definesFunction id = true ↔ ∃ f, s.function? id = some f :=
  IdMap.contains_iff

lemma isLive_iff : s.isLive id = true ↔ ∃ f, s.function? id = some f ∧ f.isLive = true := by
  simp only [isLive, Option.any_eq_true]

lemma isDead_iff : s.isDead id = true ↔ ∃ f, s.function? id = some f ∧ f.isLive = false := by
  simp only [isDead, Option.any_eq_true, Bool.not_eq_true']

lemma isDead_iff_not_isLive : s.isDead id = true ↔ s.definesFunction id = true ∧
    ¬ s.isLive id = true := by
  rw [isDead_iff, definesFunction_iff, isLive_iff]
  constructor
  · rintro ⟨f, hf, hdead⟩
    refine ⟨⟨f, hf⟩, ?_⟩
    rintro ⟨f', hf', hlive⟩
    rw [hf, Option.some.injEq] at hf'
    subst hf'
    rw [hdead] at hlive
    cases hlive
  · rintro ⟨⟨f, hf⟩, hnot⟩
    exact ⟨f, hf, by simpa using fun hlive => hnot ⟨f, hf, hlive⟩⟩

lemma isDead_eq_false_iff : s.isDead id = false ↔
    (s.definesFunction id = true → s.isLive id = true) := by
  rw [Bool.eq_false_iff, ne_eq, isDead_iff_not_isLive, not_and, not_not]

lemma definesFunction_of_isLive (h : s.isLive id = true) : s.definesFunction id = true := by
  obtain ⟨f, hf, -⟩ := isLive_iff.mp h
  exact definesFunction_iff.mpr ⟨f, hf⟩

/-! ### More names -/

/-- A store with the same functions and types and more names. -/
structure MoreNames (s s' : Store) : Prop where
  eq : s' = { s with symbols := s'.symbols }
  names : s.symbols.names <+: s'.symbols.names

namespace MoreNames

lemma refl (s : Store) : s.MoreNames s := ⟨rfl, List.prefix_rfl⟩

lemma trans {s'' : Store} (h : s.MoreNames s') (h' : s'.MoreNames s'') : s.MoreNames s'' := by
  refine ⟨?_, h.names.trans h'.names⟩
  rw [h'.eq, h.eq]

lemma function? (h : s.MoreNames s') (id : SymbolId) : s'.function? id = s.function? id := by
  rw [h.eq]
  rfl

lemma type? (h : s.MoreNames s') (id : SymbolId) : s'.type? id = s.type? id := by
  rw [h.eq]
  rfl

lemma size_le (h : s.MoreNames s') : s.symbols.size ≤ s'.symbols.size :=
  h.names.length_le

lemma wellFormed (h : s.MoreNames s') (hs : s.WellFormed) : s'.WellFormed where
  functions hf := (hs.functions (h.function? _ ▸ hf)).mono h.names
  types ht := (hs.types (h.type? _ ▸ ht)).mono h.names

lemma flagsKnown (h : s.MoreNames s') (hs : s.FlagsKnown) : s'.FlagsKnown := by
  rw [h.eq]
  exact hs

lemma typesFiled (h : s.MoreNames s') (hs : s.TypesFiled) : s'.TypesFiled := by
  rw [h.eq]
  exact hs

end MoreNames

lemma moreNames_intern (s : Store) (name : String) : s.MoreNames (s.intern name).2 :=
  ⟨rfl, s.symbols.names_prefix_insert name⟩

lemma get?_intern (h : (s.intern name).2.symbols.size < 2 ^ 32) :
    (s.intern name).2.symbols.get? (s.intern name).1 = some name :=
  SymbolTable.get?_intern h

lemma contains_intern (h : (s.intern name).2.symbols.size < 2 ^ 32) :
    (s.intern name).2.symbols.contains (s.intern name).1 = true :=
  SymbolTable.contains_intern h

/-! ### Insertion -/

lemma firstUnknown_eq_none_iff {ids : List SymbolId} :
    s.firstUnknown ids = none ↔ ∀ x ∈ ids, s.symbols.contains x = true := by
  simp [firstUnknown, List.find?_eq_none]

lemma insertFunction_eq_ok_iff : s.insertFunction f = .ok s' ↔
    (∀ x ∈ f.mentioned, s.symbols.contains x = true) ∧ s.definesFunction f.id = false ∧
      s' = { s with functions := s.functions.insert f.id f } := by
  rw [FunctionSummary.mentioned, List.forall_mem_cons, ← firstUnknown_eq_none_iff, insertFunction,
    definesFunction, SymbolTable.contains]
  cases s.symbols.get? f.id with
  | none => simp
  | some name =>
    cases s.firstUnknown (f.calls.map (·.callee)) with
    | some x => simp
    | none =>
      by_cases h : s.functions.contains f.id = true
      · simp [h]
      · simpa [h] using eq_comm

/-- A function whose symbols are interned is refused only if it has been defined. -/
lemma exists_insertFunction_eq_duplicate (h : ∀ x ∈ f.mentioned, s.symbols.contains x = true)
    (hdef : s.definesFunction f.id = true) :
    ∃ name, s.insertFunction f = .error (.duplicateDefinition name) := by
  rw [FunctionSummary.mentioned, List.forall_mem_cons, ← firstUnknown_eq_none_iff] at h
  obtain ⟨name, hname⟩ := SymbolTable.contains_iff.mp h.1
  refine ⟨name, ?_⟩
  rw [insertFunction, hname]
  simp only [h.2]
  exact if_pos hdef

lemma definesFunction_insertFunction (h : s.insertFunction f = .ok s') :
    s'.definesFunction id = (decide (id = f.id) || s.definesFunction id) := by
  obtain ⟨-, -, rfl⟩ := insertFunction_eq_ok_iff.mp h
  exact IdMap.contains_insert _ _ _ _

lemma insertType_eq_ok_iff : s.insertType t = .ok s' ↔
    (∀ x ∈ t.mentioned, s.symbols.contains x = true) ∧ s.types.contains t.id = false ∧
      s' = { s with types := s.types.insert t.id t } := by
  rw [TypeSummary.mentioned, List.forall_mem_cons, ← firstUnknown_eq_none_iff, insertType,
    SymbolTable.contains]
  cases s.symbols.get? t.id with
  | none => simp
  | some name =>
    cases s.firstUnknown t.references with
    | some x => simp
    | none =>
      by_cases h : s.types.contains t.id = true
      · simp [h]
      · simpa [h] using eq_comm

lemma exists_insertType_eq_duplicate (h : ∀ x ∈ t.mentioned, s.symbols.contains x = true)
    (hdef : s.types.contains t.id = true) :
    ∃ name, s.insertType t = .error (.duplicateDefinition name) := by
  rw [TypeSummary.mentioned, List.forall_mem_cons, ← firstUnknown_eq_none_iff] at h
  obtain ⟨name, hname⟩ := SymbolTable.contains_iff.mp h.1
  refine ⟨name, ?_⟩
  rw [insertType, hname]
  simp only [h.2]
  exact if_pos hdef

lemma WellFormed.insertFunction (hs : s.WellFormed) (h : s.insertFunction f = .ok s') :
    s'.WellFormed := by
  obtain ⟨hinterned, -, rfl⟩ := insertFunction_eq_ok_iff.mp h
  refine ⟨?_, hs.types⟩
  intro id g hg
  simp only [function?, IdMap.get?_insert] at hg
  split at hg
  · cases hg
    exact ⟨Eq.symm ‹_›, hinterned⟩
  · exact hs.functions hg

lemma WellFormed.insertType (hs : s.WellFormed) (h : s.insertType t = .ok s') :
    s'.WellFormed := by
  obtain ⟨hinterned, -, rfl⟩ := insertType_eq_ok_iff.mp h
  refine ⟨hs.functions, ?_⟩
  intro id u hu
  simp only [type?, IdMap.get?_insert] at hu
  split at hu
  · cases hu
    exact ⟨Eq.symm ‹_›, hinterned⟩
  · exact hs.types hu

lemma FlagsKnown.insertFunction (hs : s.FlagsKnown) (hf : f.flags.known = f.flags)
    (h : s.insertFunction f = .ok s') : s'.FlagsKnown := by
  obtain ⟨-, -, rfl⟩ := insertFunction_eq_ok_iff.mp h
  rw [flagsKnown_iff] at hs ⊢
  intro id g hg
  simp only [function?, IdMap.get?_insert] at hg
  split at hg
  · cases hg
    exact hf
  · exact hs id g hg

lemma FlagsKnown.insertType (hs : s.FlagsKnown) (h : s.insertType t = .ok s') :
    s'.FlagsKnown := by
  obtain ⟨-, -, rfl⟩ := insertType_eq_ok_iff.mp h
  exact hs

/-! ### Change in place -/

lemma WellFormed.modifyFunction (hs : s.WellFormed) {g : FunctionSummary → FunctionSummary}
    (hg : ∀ f, s.function? id = some f → f.FitsAt s.symbols id → (g f).FitsAt s.symbols id) :
    WellFormed { s with functions := s.functions.modify id g } := by
  refine ⟨?_, hs.types⟩
  intro id' f hf
  simp only [function?, IdMap.get?_modify] at hf
  split at hf
  · obtain ⟨f', hf', rfl⟩ := Option.map_eq_some_iff.mp hf
    rename_i heq
    rw [heq] at hf' ⊢
    exact hg f' hf' (hs.functions hf')
  · exact hs.functions hf

lemma WellFormed.modifyType (hs : s.WellFormed) {g : TypeSummary → TypeSummary}
    (hg : ∀ t, s.type? id = some t → t.FitsAt s.symbols id → (g t).FitsAt s.symbols id) :
    WellFormed { s with types := s.types.modify id g } := by
  refine ⟨hs.functions, ?_⟩
  intro id' t ht
  simp only [type?, IdMap.get?_modify] at ht
  split at ht
  · obtain ⟨t', ht', rfl⟩ := Option.map_eq_some_iff.mp ht
    rename_i heq
    rw [heq] at ht' ⊢
    exact hg t' ht' (hs.types ht')
  · exact hs.types ht

lemma FlagsKnown.modifyFunction (hs : s.FlagsKnown) {g : FunctionSummary → FunctionSummary}
    (hg : ∀ f, f.flags.known = f.flags → (g f).flags.known = (g f).flags) :
    FlagsKnown { s with functions := s.functions.modify id g } := by
  rw [flagsKnown_iff] at hs ⊢
  intro id' f hf
  simp only [function?, IdMap.get?_modify] at hf
  split at hf
  · obtain ⟨f', hf', rfl⟩ := Option.map_eq_some_iff.mp hf
    exact hg f' (hs id' f' hf')
  · exact hs id' f hf

end Store

end LinkSummary
