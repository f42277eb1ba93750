import LinkSummary.Proofs.Liveness.Reachability
import LinkSummary.Proofs.Program
import Mathlib.Data.List.Nodup

/-!
# Stores by name

The program of a store can be told by the store's ids, or by the names of these ids. In a
well-formed store whose ids can tell its names apart, names and ids answer to each other, so what is
reachable by name is what is reachable by id. Nothing that depends on the order of the ids is left
in the program by name.
-/

namespace LinkSummary.Store

variable {s s' : Store} {id : SymbolId} {name : String} {f : FunctionSummary} {t : TypeSummary}

/-! ### Names and ids -/

/-- A well-formed store whose ids can tell its names apart. -/
structure Faithful (s : Store) : Prop where
  wellFormed : s.WellFormed
  size_lt : s.symbols.size < 2 ^ 32

lemma shownName_of_get? (h : s.symbols.get? id = some name) : s.shownName id = name := by
  rw [shownName, h, Option.getD_some]

lemma get?_shownName (h : s.symbols.contains id = true) :
    s.symbols.get? id = some (s.shownName id) := by
  obtain ⟨name, hname⟩ := SymbolTable.contains_iff.mp h
  rw [shownName_of_get? hname, hname]

lemma shownName_of_lookup (hsize : s.symbols.size < 2 ^ 32)
    (h : s.symbols.lookup name = some id) : s.shownName id = name :=
  shownName_of_get? ((SymbolTable.lookup_eq_some_iff hsize).mp h)

lemma lookup_shownName (hsize : s.symbols.size < 2 ^ 32) (h : s.symbols.contains id = true) :
    s.symbols.lookup (s.shownName id) = some id :=
  (SymbolTable.lookup_eq_some_iff hsize).mpr (get?_shownName h)

lemma shownName_injective {id' : SymbolId} (h : s.symbols.contains id = true)
    (h' : s.symbols.contains id' = true) (heq : s.shownName id = s.shownName id') : id = id' := by
  have hname := get?_shownName h
  rw [heq] at hname
  exact SymbolTable.get?_injective hname (get?_shownName h')

/-- A name is kept when more names are interned. -/
lemma MoreNames.shownName (h : s.MoreNames s') (hid : s.symbols.contains id = true) :
    s'.shownName id = s.shownName id :=
  shownName_of_get? (SymbolTable.get?_mono h.names (get?_shownName hid))

/-! ### What a well-formed store mentions -/

lemma WellFormed.contains_function (hs : s.WellFormed) (hf : s.function? id = some f) :
    s.symbols.contains id = true := by
  have hfits := hs.functions hf
  exact hfits.id_eq ▸ hfits.interned f.id List.mem_cons_self

lemma WellFormed.contains_callee (hs : s.WellFormed) (hf : s.function? id = some f)
    {edge : CallEdge} (hedge : edge ∈ f.calls) : s.symbols.contains edge.callee = true :=
  (hs.functions hf).interned edge.callee
    (List.mem_cons_of_mem _ (List.mem_map_of_mem (f := (·.callee)) hedge))

lemma WellFormed.contains_type (hs : s.WellFormed) (ht : s.type? id = some t) :
    s.symbols.contains id = true := by
  have hfits := hs.types ht
  exact hfits.id_eq ▸ hfits.interned t.id List.mem_cons_self

lemma WellFormed.contains_base (hs : s.WellFormed) (ht : s.type? id = some t) {base : SymbolId}
    (hbase : t.base = some base) : s.symbols.contains base = true :=
  (hs.types ht).interned base (TypeSummary.mem_mentioned.mpr (.inr (.inl hbase)))

lemma WellFormed.contains_slot (hs : s.WellFormed) (ht : s.type? id = some t) {slot : SymbolId}
    (hslot : slot ∈ t.slots) : s.symbols.contains slot = true :=
  (hs.types ht).interned slot (TypeSummary.mem_mentioned.mpr (.inr (.inr (.inl hslot))))

lemma WellFormed.contains_witness (hs : s.WellFormed) (ht : s.type? id = some t)
    {requirement implementation : SymbolId}
    (hwitness : t.witnesses.get? requirement = some implementation) :
    s.symbols.contains requirement = true ∧ s.symbols.contains implementation = true := by
  have hentry : ∀ x, x = requirement ∨ x = implementation → s.symbols.contains x = true :=
    fun x hx => (hs.types ht).interned x (TypeSummary.mem_mentioned.mpr
      (.inr (.inr (.inr ⟨requirement, implementation, hwitness, hx⟩))))
  exact ⟨hentry requirement (.inl rfl), hentry implementation (.inr rfl)⟩

lemma nodup_names {α : Type} {m : IdMap α} {key : α → SymbolId}
    (hkey : ∀ e ∈ m.entries, key e.2 = e.1)
    (hcontains : ∀ id x, m.get? id = some x → s.symbols.contains id = true) :
    (m.values.map fun x => s.shownName (key x)).Nodup := by
  have hkeys : (m.values.map fun x => s.shownName (key x)) = m.keys.map s.shownName := by
    rw [← IdMap.map_key_values hkey, List.map_map]
    rfl
  rw [hkeys]
  apply List.Nodup.map_on _ m.keys_nodup
  intro id hid id' hid' heq
  obtain ⟨x, hx⟩ := IdMap.mem_keys_iff.mp hid
  obtain ⟨x', hx'⟩ := IdMap.mem_keys_iff.mp hid'
  exact shownName_injective (hcontains id x hx) (hcontains id' x' hx') heq

/-- Different functions have different names. -/
lemma WellFormed.nodup_functionNames (hs : s.WellFormed) :
    (s.functions.values.map fun f => s.shownName f.id).Nodup :=
  nodup_names hs.id_eq_of_mem_functions fun _ _ => hs.contains_function

lemma WellFormed.nodup_typeNames (hs : s.WellFormed) :
    (s.types.values.map fun t => s.shownName t.id).Nodup :=
  nodup_names hs.id_eq_of_mem_types fun _ _ => hs.contains_type

/-! ### The program of a store by id -/

def idCall (edge : CallEdge) : Program.Call SymbolId :=
  { callee := edge.callee, kind := edge.kind, preserved := edge.preserved }

def idFunction (f : FunctionSummary) : Program.Function SymbolId :=
  { flags := f.flags, debugName := f.debugName, calls := f.calls.map idCall }

def idTables (t : TypeSummary) : Program.Tables SymbolId :=
  { base := t.base, slots := t.slots, witnesses := t.witnesses.get? }

/-- What a store says of functions and types, by id. -/
def program (s : Store) : Program SymbolId where
  functions id := (s.function? id).map idFunction
  types id := (s.type? id).map idTables

lemma functions_program (hf : s.function? id = some f) :
    s.program.functions id = some (idFunction f) := by
  simp [program, hf]

lemma types_program (ht : s.type? id = some t) : s.program.types id = some (idTables t) := by
  simp [program, ht]

lemma derivesFrom_program {sub base : SymbolId} :
    s.program.DerivesFrom sub base ↔ s.DerivesFrom sub base := by
  simp [Program.DerivesFrom, DerivesFrom, program, idTables]

lemma holdsSlot_program {type implementation : SymbolId} {slot : Nat} :
    s.program.HoldsSlot type slot implementation ↔ s.HoldsSlot type slot implementation := by
  simp [Program.HoldsSlot, HoldsSlot, program, idTables]

lemma holdsWitness_program {type requirement implementation : SymbolId} :
    s.program.HoldsWitness type requirement implementation ↔
      s.HoldsWitness type requirement implementation := by
  simp [Program.HoldsWitness, HoldsWitness, program, idTables]

lemma resolves_program_iff {edge : CallEdge} :
    s.program.Resolves (idCall edge) ↔ s.HasEntry edge.callee edge.kind := by
  obtain ⟨callee, kind, preserved⟩ := edge
  cases kind <;> simp [Program.Resolves, idCall, HasEntry, holdsSlot_program, holdsWitness_program]

lemma subtypeOf_program : s.program.SubtypeOf = s.SubtypeOf := by
  have hderives : s.program.DerivesFrom = s.DerivesFrom := by
    funext sub base
    exact propext derivesFrom_program
  rw [Program.SubtypeOf, SubtypeOf, hderives]

lemma dispatches_program {callee target : SymbolId} {kind : CallKind} :
    s.program.Dispatches callee kind target ↔ s.Dispatches callee kind target := by
  constructor
  · intro h
    cases h with
    | direct => exact .direct
    | named => exact .named
    | override hcallee hsub hslot =>
      exact .override (holdsSlot_program.mp hcallee) (subtypeOf_program ▸ hsub)
        (holdsSlot_program.mp hslot)
    | conformance hwitness => exact .conformance (holdsWitness_program.mp hwitness)
  · intro h
    cases h with
    | direct => exact .direct
    | named => exact .named
    | override hcallee hsub hslot =>
      exact .override (holdsSlot_program.mpr hcallee) (subtypeOf_program ▸ hsub)
        (holdsSlot_program.mpr hslot)
    | conformance hwitness => exact .conformance (holdsWitness_program.mpr hwitness)

lemma callsInto_program : s.program.CallsInto = s.CallsInto := by
  funext caller target
  simp only [Program.CallsInto, CallsInto, dispatches_program]
  simp [program, idFunction, idCall, definesFunction_iff, Option.isSome_iff_exists]

lemma isRoot_program : s.program.IsRoot id ↔ s.IsRoot id := by
  simp [Program.IsRoot, IsRoot, program, idFunction, FunctionSummary.isPreserved,
    FunctionSummary.isLive]

lemma reachable_program : s.program.Reachable id ↔ s.Reachable id := by
  simp only [Program.Reachable, Reachable, isRoot_program, callsInto_program]

/-! ### The program of a store by name -/

def namedCall (s : Store) (edge : CallEdge) : Program.Call String :=
  { callee := s.shownName edge.callee, kind := edge.kind, preserved := edge.preserved }

def namedFunction (s : Store) (f : FunctionSummary) : Program.Function String :=
  { flags := f.flags, debugName := f.debugName, calls := f.calls.map s.namedCall }

def namedTables (s : Store) (t : TypeSummary) : Program.Tables String :=
  { base := t.base.map s.shownName
    slots := t.slots.map s.shownName
    witnesses := fun requirement =>
      (s.symbols.lookup requirement >>= t.witnesses.get?).map s.shownName }

/-- What a store says of functions and types, by name. -/
def named (s : Store) : Program String where
  functions name := (s.functionNamed? name).map s.namedFunction
  types name := (s.typeNamed? name).map s.namedTables

lemma functions_named_of_lookup (h : s.symbols.lookup name = some id) :
    s.named.functions name = (s.function? id).map s.namedFunction := by
  simp [named, functionNamed?, h]

lemma functions_named_of_lookup_eq_none (h : s.symbols.lookup name = none) :
    s.named.functions name = none := by
  simp [named, functionNamed?, h]

lemma types_named_of_lookup (h : s.symbols.lookup name = some id) :
    s.named.types name = (s.type? id).map s.namedTables := by
  simp [named, typeNamed?, h]

lemma functions_named_eq_some_iff {F : Program.Function String} :
    s.named.functions name = some F ↔ ∃ id f, s.symbols.lookup name = some id ∧
      s.function? id = some f ∧ s.namedFunction f = F := by
  simp [named, functionNamed?, Option.bind_eq_some_iff]

lemma types_named_eq_some_iff {T : Program.Tables String} :
    s.named.types name = some T ↔ ∃ id t, s.symbols.lookup name = some id ∧
      s.type? id = some t ∧ s.namedTables t = T := by
  simp [named, typeNamed?, Option.bind_eq_some_iff]

lemma witnesses_namedTables_eq_some_iff {requirement implementation : String} :
    (s.namedTables t).witnesses requirement = some implementation ↔
      ∃ r i, s.symbols.lookup requirement = some r ∧ t.witnesses.get? r = some i ∧
        s.shownName i = implementation := by
  simp [namedTables, Option.bind_eq_some_iff]

namespace Faithful

lemma functions_named_eq (hs : s.Faithful) (hf : s.function? id = some f) :
    s.named.functions (s.shownName id) = some (s.namedFunction f) := by
  rw [functions_named_of_lookup
    (lookup_shownName hs.size_lt (hs.wellFormed.contains_function hf)), hf, Option.map_some]

lemma types_named_eq (hs : s.Faithful) (ht : s.type? id = some t) :
    s.named.types (s.shownName id) = some (s.namedTables t) := by
  rw [types_named_of_lookup (lookup_shownName hs.size_lt (hs.wellFormed.contains_type ht)), ht,
    Option.map_some]

/-! ### From ids to names and back -/

lemma embeds_shownName (hs : s.Faithful) : s.program.Embeds s.shownName s.named := by
  constructor
  · intro id F hF
    obtain ⟨f, hf, rfl⟩ := Option.map_eq_some_iff.mp hF
    refine ⟨s.namedFunction f, hs.functions_named_eq hf, ?_⟩
    intro call hcall
    obtain ⟨edge, hedge, rfl⟩ := List.mem_map.mp hcall
    exact List.mem_map_of_mem hedge
  · intro id T hT
    obtain ⟨t, ht, rfl⟩ := Option.map_eq_some_iff.mp hT
    refine ⟨s.namedTables t, hs.types_named_eq ht, rfl, List.prefix_rfl, ?_⟩
    intro requirement implementation hwitness
    have hinterned := (hs.wellFormed.contains_witness ht hwitness).1
    exact witnesses_namedTables_eq_some_iff.mpr
      ⟨requirement, implementation, lookup_shownName hs.size_lt hinterned, hwitness, rfl⟩

end Faithful

/-- The id of a name; a name that is not interned has none. -/
def idOf (s : Store) (name : String) : SymbolId := (s.symbols.lookup name).getD .absent

lemma idOf_of_lookup (h : s.symbols.lookup name = some id) : s.idOf name = id := by
  rw [idOf, h, Option.getD_some]

namespace Faithful

lemma idOf_shownName (hs : s.Faithful) (h : s.symbols.contains id = true) :
    s.idOf (s.shownName id) = id :=
  idOf_of_lookup (lookup_shownName hs.size_lt h)

lemma embeds_idOf (hs : s.Faithful) : s.named.Embeds s.idOf s.program := by
  constructor
  · intro name F hF
    obtain ⟨id, f, hid, hf, rfl⟩ := functions_named_eq_some_iff.mp hF
    refine ⟨idFunction f, idOf_of_lookup hid ▸ functions_program hf, ?_⟩
    intro call hcall
    obtain ⟨edge, hedge, rfl⟩ := List.mem_map.mp hcall
    refine List.mem_map.mpr ⟨edge, hedge, ?_⟩
    simp only [Program.Call.map, namedCall, idCall,
      hs.idOf_shownName (hs.wellFormed.contains_callee hf hedge)]
  · intro name T hT
    obtain ⟨id, t, hid, ht, rfl⟩ := types_named_eq_some_iff.mp hT
    refine ⟨idTables t, idOf_of_lookup hid ▸ types_program ht, ?_, ?_, ?_⟩
    · cases hbase : t.base with
      | none => simp [namedTables, idTables, hbase]
      | some base =>
        simp [namedTables, idTables, hbase,
          hs.idOf_shownName (hs.wellFormed.contains_base ht hbase)]
    · have hslots : (t.slots.map s.shownName).map s.idOf = t.slots := by
        rw [List.map_map, List.map_congr_left, List.map_id]
        exact fun slot hslot => hs.idOf_shownName (hs.wellFormed.contains_slot ht hslot)
      exact hslots ▸ List.prefix_rfl
    · intro requirement implementation hwitness
      obtain ⟨r, i, hr, hi, rfl⟩ := witnesses_namedTables_eq_some_iff.mp hwitness
      rw [idOf_of_lookup hr, hs.idOf_shownName (hs.wellFormed.contains_witness ht hi).2]
      exact hi

/-- What is reachable by name is what is reachable by id. -/
theorem reachable_named_iff (hs : s.Faithful) (h : s.symbols.contains id = true) :
    s.named.Reachable (s.shownName id) ↔ s.Reachable id := by
  rw [← reachable_program]
  constructor
  · intro hreach
    have hroots : ∀ name, s.named.IsRoot name → s.program.Reachable (s.idOf name) := by
      rintro name ⟨F, hF, hroot⟩
      obtain ⟨root, f, hlookup, hf, rfl⟩ := functions_named_eq_some_iff.mp hF
      rw [idOf_of_lookup hlookup]
      exact (isRoot_program.mpr ⟨f, hf, hroot⟩).reachable
    exact hs.idOf_shownName h ▸ hs.embeds_idOf.reachable hroots hreach
  · intro hreach
    refine hs.embeds_shownName.reachable ?_ hreach
    intro root hroot
    obtain ⟨f, hf, hroot⟩ := isRoot_program.mp hroot
    exact Program.IsRoot.reachable ⟨_, hs.functions_named_eq hf, hroot⟩

end Faithful

/-! ### Comparison by name -/

variable {t' : TypeSummary}

/-- Tables say the same if their bases and slots do, and their witnesses for the names that are
interned. -/
lemma namedTables_eq_iff : s.namedTables t = s'.namedTables t' ↔
    t.base.map s.shownName = t'.base.map s'.shownName ∧
      t.slots.map s.shownName = t'.slots.map s'.shownName ∧
      ∀ r ∈ s.symbols.names ++ s'.symbols.names,
        (s.namedTables t).witnesses r = (s'.namedTables t').witnesses r := by
  rw [namedTables, namedTables, Program.Tables.mk.injEq]
  apply and_congr_right'
  apply and_congr_right'
  rw [funext_iff]
  constructor
  · intro h r _
    exact h r
  · intro h r
    by_cases hr : r ∈ s.symbols.names ++ s'.symbols.names
    · exact h r hr
    · rw [List.mem_append, not_or, ← SymbolTable.lookup_eq_none_iff,
        ← SymbolTable.lookup_eq_none_iff] at hr
      rw [hr.1, hr.2]
      rfl

instance (s s' : Store) (t t' : TypeSummary) : Decidable (s.namedTables t = s'.namedTables t') :=
  decidable_of_iff' _ namedTables_eq_iff

instance (s s' : Store) : (t? t?' : Option TypeSummary) →
    Decidable (t?.map s.namedTables = t?'.map s'.namedTables)
  | none, none => .isTrue rfl
  | some t, some t' => decidable_of_iff (s.namedTables t = s'.namedTables t') (by simp)
  | none, some _ => .isFalse nofun
  | some _, none => .isFalse nofun

/-- Stores say the same if they do so of the names that are interned. -/
lemma named_eq_iff : s.named = s'.named ↔ ∀ name ∈ s.symbols.names ++ s'.symbols.names,
    (s.functionNamed? name).map s.namedFunction = (s'.functionNamed? name).map s'.namedFunction ∧
      (s.typeNamed? name).map s.namedTables = (s'.typeNamed? name).map s'.namedTables := by
  constructor
  · intro h name _
    exact ⟨congrFun (congrArg Program.functions h) name, congrFun (congrArg Program.types h) name⟩
  · intro h
    have hnamed : ∀ name, s.named.functions name = s'.named.functions name ∧
        s.named.types name = s'.named.types name := by
      intro name
      by_cases hname : name ∈ s.symbols.names ++ s'.symbols.names
      · exact h name hname
      · rw [List.mem_append, not_or, ← SymbolTable.lookup_eq_none_iff,
          ← SymbolTable.lookup_eq_none_iff] at hname
        rw [functions_named_of_lookup_eq_none hname.1, functions_named_of_lookup_eq_none hname.2]
        simp [named, typeNamed?, hname]
    exact Program.ext (funext fun name => (hnamed name).1) (funext fun name => (hnamed name).2)

instance (s s' : Store) : Decidable (s.named = s'.named) :=
  decidable_of_iff' _ named_eq_iff

end LinkSummary.Store
