import LinkSummary.Proofs.Binary.Frames
import LinkSummary.Proofs.Store.Inheritance
import Mathlib.Data.List.Induction

/-!
# The store of a module summary

The records of a module summary are accepted one by one exactly if they fit together, and the store
read so far is always the one that the records so far list.
-/

namespace LinkSummary

open Format Layout

namespace Listing

variable {records : List Record} {r : Record} {l : Listing} {s : Store} {id : SymbolId}
  {w : TypeRecord → List (SymbolId × SymbolId)}

/-! ### One more record -/

/-- A record may come after others that fit together. -/
structure MayFollow (w : TypeRecord → List (SymbolId × SymbolId)) (records : List Record)
    (r : Record) : Prop where
  name : ∀ name, r.name? = some name → name ∉ names records
  function : ∀ f, r.function? = some f → f.id ∉ (functions records).map (·.id)
  type : ∀ t, r.type? = some t → t.id ∉ (types records).map (·.id)
  inRange : ∀ id ∈ r.mentioned w, 1 ≤ id.toNat ∧ id.toNat ≤ (names records).length

lemma nodup_concat_iff {α β : Type} {g : Record → Option α} {key : α → β} :
    (((records ++ [r]).filterMap g).map key).Nodup ↔ ((records.filterMap g).map key).Nodup ∧
      ∀ a, g r = some a → key a ∉ (records.filterMap g).map key := by
  rw [List.filterMap_append, List.map_append]
  cases h : g r with
  | none => simp [h]
  | some a =>
    rw [List.filterMap_cons_some h, List.filterMap_nil, List.map_singleton,
      List.perm_append_comm.nodup_iff, List.singleton_append, List.nodup_cons, and_comm]
    simp

lemma nodup_names_concat_iff : (names (records ++ [r])).Nodup ↔
    (names records).Nodup ∧ ∀ name, r.name? = some name → name ∉ names records := by
  have h : (((records ++ [r]).filterMap Record.name?).map fun name => name).Nodup ↔ _ :=
    nodup_concat_iff
  rwa [List.map_id', List.map_id'] at h

/-- A condition on each record after those before it is one on the last record and the others. -/
lemma forall_split_concat_iff {p : List Record → Record → Prop} :
    (∀ before record after, records ++ [r] = before ++ record :: after → p before record) ↔
      (∀ before record after, records = before ++ record :: after → p before record) ∧
        p records r := by
  constructor
  · intro h
    refine ⟨?_, h records r [] rfl⟩
    rintro before record after rfl
    exact h before record (after ++ [r]) (by rw [List.append_assoc, List.cons_append])
  · rintro ⟨h, hlast⟩ before record after heq
    rcases List.eq_nil_or_concat after with rfl | ⟨after, last, rfl⟩
    · obtain ⟨rfl, hlast'⟩ := List.append_inj' heq rfl
      rw [List.cons.injEq] at hlast'
      exact hlast'.1 ▸ hlast
    · rw [List.concat_eq_append, ← List.cons_append, ← List.append_assoc] at heq
      exact h before record after (List.append_inj' heq rfl).1

lemma ordered_concat_iff :
    Ordered w (records ++ [r]) ↔ Ordered w records ∧ MayFollow w records r := by
  constructor
  · rintro ⟨hnames, hfunctions, htypes, hrange⟩
    rw [nodup_names_concat_iff] at hnames
    rw [functions, nodup_concat_iff] at hfunctions
    rw [types, nodup_concat_iff] at htypes
    rw [forall_split_concat_iff] at hrange
    exact ⟨⟨hnames.1, hfunctions.1, htypes.1, hrange.1⟩,
      ⟨hnames.2, hfunctions.2, htypes.2, hrange.2⟩⟩
  · rintro ⟨⟨hnames, hfunctions, htypes, hrange⟩, hnames', hfunctions', htypes', hrange'⟩
    exact ⟨nodup_names_concat_iff.mpr ⟨hnames, hnames'⟩,
      nodup_concat_iff.mpr ⟨hfunctions, hfunctions'⟩, nodup_concat_iff.mpr ⟨htypes, htypes'⟩,
      forall_split_concat_iff.mpr ⟨hrange, hrange'⟩⟩

lemma ordered_nil : Ordered w [] := by
  refine ⟨List.nodup_nil, List.nodup_nil, List.nodup_nil, ?_⟩
  intro before record after h
  exact absurd h.symm (List.append_ne_nil_of_right_ne_nil _ (List.cons_ne_nil _ _))

/-! ### The store so far -/

/-- The listing with one more record. -/
def concat (l : Listing) (r : Record) : Listing := { l with records := l.records ++ [r] }

lemma names_store (h : (names l.records).Nodup) : l.store.symbols.names = names l.records :=
  SymbolTable.names_ofList h

lemma contains_store (h : (names l.records).Nodup) : l.store.symbols.contains id = true ↔
    1 ≤ id.toNat ∧ id.toNat ≤ (names l.records).length := by
  rw [SymbolTable.contains_iff_toNat, SymbolTable.size, names_store h]

lemma definesFunction_store :
    l.store.definesFunction id = true ↔ id ∈ (functions l.records).map (·.id) := by
  rw [Store.definesFunction, IdMap.contains_iff_mem_keys, store, IdMap.mem_keys_ofList,
    List.map_map]
  rfl

lemma containsType_store :
    l.store.types.contains id = true ↔ id ∈ (types l.records).map (·.id) := by
  rw [IdMap.contains_iff_mem_keys, store, IdMap.mem_keys_ofList, List.map_map]
  rfl

/-- Add a record to a store, if it is accepted. -/
def add? (s : Store) : Record → Option Store
  | .name name => if name ∈ s.symbols.names then none else some (s.intern name).2
  | .function f => (s.insertFunction f).toOption
  | .type t => (s.insertType t.summary).toOption
  | .other => some s

lemma toOption_eq_some_iff {ε α : Type} {x : Except ε α} {a : α} :
    x.toOption = some a ↔ x = .ok a := by
  cases x <;> simp [Except.toOption]

lemma store_concat_name (name : String) :
    (l.concat (.name name)).store = (l.store.intern name).2 := by
  simp [store, concat, names, functions, types, List.filterMap_cons, Record.name?, Record.function?,
    Record.type?, SymbolTable.ofList_concat, Store.intern, SymbolTable.intern]

lemma store_concat_function (f : FunctionSummary) : (l.concat (.function f)).store =
    { l.store with functions := l.store.functions.insert f.id f } := by
  simp [store, concat, names, functions, types, List.filterMap_cons, Record.name?, Record.function?,
    Record.type?, IdMap.ofList_concat]

lemma store_concat_type (t : TypeRecord) : (l.concat (.type t)).store =
    { l.store with types := l.store.types.insert t.id t.summary } := by
  simp [store, concat, names, functions, types, List.filterMap_cons, Record.name?, Record.function?,
    Record.type?, IdMap.ofList_concat]

lemma store_concat_other : (l.concat .other).store = l.store := by
  simp [store, concat, names, functions, types, List.filterMap_cons, Record.name?, Record.function?,
    Record.type?]

/-- A record is accepted exactly if it may follow those before it. -/
lemma add?_store_eq_some_iff (h : Ordered TypeRecord.keptWitnesses l.records) :
    add? l.store r = some s ↔
      MayFollow TypeRecord.keptWitnesses l.records r ∧ s = (l.concat r).store := by
  cases r with
  | name name =>
    rw [add?, names_store h.names, store_concat_name, Option.ite_none_left_eq_some,
      Option.some.injEq, eq_comm (a := s)]
    refine and_congr_left fun _ => ⟨fun hnot => ⟨?_, nofun, nofun, nofun⟩, fun hmay => ?_⟩
    · rintro _ ⟨⟩
      exact hnot
    · exact hmay.name name rfl
  | function f =>
    rw [add?, toOption_eq_some_iff, Store.insertFunction_eq_ok_iff, store_concat_function,
      ← and_assoc]
    simp only [contains_store h.names, Bool.eq_false_iff, ne_eq, definesFunction_store]
    refine and_congr_left fun _ => ⟨fun hf => ⟨nofun, ?_, nofun, hf.1⟩, fun hmay => ?_⟩
    · rintro _ ⟨⟩
      exact hf.2
    · exact ⟨hmay.inRange, hmay.function f rfl⟩
  | type t =>
    rw [add?, toOption_eq_some_iff, Store.insertType_eq_ok_iff, store_concat_type, ← and_assoc]
    simp only [contains_store h.names, Bool.eq_false_iff, ne_eq]
    refine and_congr_left fun _ => ⟨fun ht => ⟨nofun, nofun, ?_, ht.1⟩, fun hmay => ?_⟩
    · rintro _ ⟨⟩
      exact fun hmem => ht.2 (containsType_store.mpr hmem)
    · exact ⟨hmay.inRange, fun hmem => hmay.type t rfl (containsType_store.mp hmem)⟩
  | other =>
    rw [add?, store_concat_other, Option.some.injEq, eq_comm]
    exact (and_iff_right ⟨nofun, nofun, nofun, nofun⟩).symm

/-- All records are accepted exactly if they fit together. -/
theorem foldlM_add?_eq_some_iff : l.records.foldlM add? { l with records := [] }.store = some s ↔
    Ordered TypeRecord.keptWitnesses l.records ∧ s = l.store := by
  obtain ⟨moduleName, computed, records⟩ := l
  -- from the last record on, since what may come depends on what came before
  induction records using List.reverseRecOn generalizing s with
  | nil =>
    rw [List.foldlM_nil]
    exact Option.some_inj.trans (eq_comm.trans (and_iff_right ordered_nil).symm)
  | append_singleton records r ih =>
    simp only [List.foldlM_append, List.foldlM_cons, List.foldlM_nil, bind_pure]
    rw [ordered_concat_iff, Option.bind_eq_bind, Option.bind_eq_some_iff]
    constructor
    · rintro ⟨s', hs', hs⟩
      obtain ⟨hordered, rfl⟩ := ih.mp hs'
      obtain ⟨hmay, rfl⟩ := (add?_store_eq_some_iff hordered).mp hs
      exact ⟨⟨hordered, hmay⟩, rfl⟩
    · rintro ⟨⟨hordered, hmay⟩, rfl⟩
      exact ⟨_, ih.mpr ⟨hordered, rfl⟩, (add?_store_eq_some_iff hordered).mpr ⟨hmay, rfl⟩⟩

/-! ### Vtables -/

lemma type?_store_eq_some_iff (h : ((types l.records).map (·.id)).Nodup) {u : TypeSummary} :
    l.store.type? id = some u ↔ ∃ t ∈ types l.records, t.id = id ∧ t.summary = u := by
  have hkeys : (((types l.records).map fun t => (t.id, t.summary)).map (·.1)).Nodup := by
    rwa [List.map_map]
  rw [Store.type?, store, IdMap.get?_ofList_of_nodup hkeys]
  constructor
  · intro hu
    obtain ⟨t, ht, heq⟩ := List.mem_map.mp (IdMap.mem_of_valueAt hu)
    cases heq
    exact ⟨t, ht, rfl, rfl⟩
  · rintro ⟨t, ht, rfl, rfl⟩
    exact IdMap.valueAt_of_mem_of_nodup hkeys
      (List.mem_map_of_mem (f := fun t => (t.id, t.summary)) ht)

/-- The vtable check sees the types as they are listed. -/
lemma checkVtables_store (h : ((types l.records).map (·.id)).Nodup) :
    l.store.checkVtables = .ok () ↔ SlotsCoverBases l.records := by
  have hvalues : ∀ {u}, u ∈ l.store.types.values ↔ ∃ t ∈ types l.records, t.summary = u := by
    intro u
    rw [IdMap.mem_values_iff]
    constructor
    · rintro ⟨id, hu⟩
      obtain ⟨t, ht, -, rfl⟩ := (type?_store_eq_some_iff h).mp hu
      exact ⟨t, ht, rfl⟩
    · rintro ⟨t, ht, rfl⟩
      exact ⟨t.id, (type?_store_eq_some_iff h).mpr ⟨t, ht, rfl, rfl⟩⟩
  rw [Store.checkVtables_eq_ok_iff]
  constructor
  · intro hslots t ht base hbase heq
    refine hslots t.summary (hvalues.mpr ⟨t, ht, rfl⟩) base.summary ?_
    exact Option.bind_eq_some_iff.mpr
      ⟨base.id, heq, (type?_store_eq_some_iff h).mpr ⟨base, hbase, rfl, rfl⟩⟩
  · intro hslots u hu v hv
    obtain ⟨t, ht, rfl⟩ := hvalues.mp hu
    obtain ⟨id, hid, hv⟩ := Option.bind_eq_some_iff.mp hv
    obtain ⟨base, hbase, rfl, rfl⟩ := (type?_store_eq_some_iff h).mp hv
    exact hslots t ht base hbase hid

/-- The store of a listing, if all of its records are accepted. -/
def store? (l : Listing) : Option Store :=
  (l.records.foldlM add? { l with records := [] }.store).filter fun s => s.checkVtables = .ok ()

theorem store?_eq_some_iff : l.store? = some s ↔
    Ordered TypeRecord.keptWitnesses l.records ∧ SlotsCoverBases l.records ∧ s = l.store := by
  rw [store?, Option.filter_eq_some_iff, foldlM_add?_eq_some_iff, decide_eq_true_eq]
  constructor
  · rintro ⟨⟨hordered, rfl⟩, hcheck⟩
    exact ⟨hordered, (checkVtables_store hordered.types).mp hcheck, rfl⟩
  · rintro ⟨hordered, hslots, rfl⟩
    exact ⟨⟨hordered, rfl⟩, (checkVtables_store hordered.types).mpr hslots⟩

end Listing

end LinkSummary
