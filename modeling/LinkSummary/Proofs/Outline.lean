import LinkSummary.Outline.Printer
import LinkSummary.Proofs.Store.Named

/-!
# Outlines tell names only

What a store tells by name determines its outline, and so its text form: the ids decide in which
order functions, types and witnesses are met, and sorting them by their different names undoes this.
-/

namespace LinkSummary

/-! ### Sorting by name -/

section Sorting

variable {α : Type} {name : α → String} {items items' : List α}

lemma sortByName_perm (name : α → String) (items : List α) :
    (sortByName name items).Perm items :=
  List.mergeSort_perm _ _

lemma mem_sortByName {x : α} : x ∈ sortByName name items ↔ x ∈ items :=
  (sortByName_perm name items).mem_iff

lemma pairwise_sortByName (name : α → String) (items : List α) :
    (sortByName name items).Pairwise fun a b => ¬ name b < name a := by
  have hle : ∀ a b : α, (!decide (name b < name a)) = true ↔ ¬ name b < name a := by
    intro a b
    rw [Bool.not_eq_true', decide_eq_false_iff_not]
  have hsorted : (sortByName name items).Pairwise
      fun a b => (!decide (name b < name a)) = true := by
    apply List.pairwise_mergeSort
    · intro a b c hab hbc
      rw [hle] at hab hbc ⊢
      exact String.not_lt.mpr (String.le_trans (String.not_lt.mp hab) (String.not_lt.mp hbc))
    · intro a b
      rw [Bool.or_eq_true, hle, hle]
      exact (String.le_total _ _).imp String.not_lt.mpr String.not_lt.mpr
  exact hsorted.imp fun {a b} h => (hle a b).mp h

/-- Items with different names stand in the strict order of these. -/
lemma pairwise_lt_sortByName (hnames : (items.map name).Nodup) :
    (sortByName name items).Pairwise fun a b => name a < name b := by
  have hnodup : ((sortByName name items).map name).Nodup :=
    ((sortByName_perm name items).map name).nodup_iff.mpr hnames
  refine (pairwise_sortByName name items).imp₂ ?_ (List.pairwise_map.mp hnodup)
  intro a b hnot hne
  exact String.not_le.mp fun hle => hne (String.le_antisymm (String.not_lt.mp hnot) hle)

/-- Items with different names have one order. -/
theorem sortByName_eq_of_perm (hnames : (items.map name).Nodup) (hperm : items.Perm items') :
    sortByName name items = sortByName name items' := by
  have hsort := sortByName_perm name items
  have hsort' := sortByName_perm name items'
  refine List.Perm.eq_of_pairwise ?_ (pairwise_sortByName name items)
    (pairwise_sortByName name items') ((hsort.trans hperm).trans hsort'.symm)
  intro a b ha hb hab hba
  have ha := hsort.mem_iff.mp ha
  have hb := hperm.mem_iff.mpr (hsort'.mem_iff.mp hb)
  have heq : name a = name b := String.le_antisymm (String.not_lt.mp hab) (String.not_lt.mp hba)
  exact List.inj_on_of_nodup_map hnames ha hb heq

lemma sortByName_eq_of_mem_iff (hnames : (items.map name).Nodup) (hnames' : (items'.map name).Nodup)
    (h : ∀ x, x ∈ items ↔ x ∈ items') : sortByName name items = sortByName name items' :=
  sortByName_eq_of_perm hnames
    ((List.perm_ext_iff_of_nodup hnames.of_map hnames'.of_map).mpr h)

end Sorting

namespace Store

variable {s s' : Store} {f f' : FunctionSummary} {t t' : TypeSummary}

/-! ### Functions -/

lemma functionOutline_eq_of_named (hid : s.shownName f.id = s'.shownName f'.id)
    (h : s.namedFunction f = s'.namedFunction f') :
    s.functionOutline f = s'.functionOutline f' := by
  rw [namedFunction, namedFunction, Program.Function.mk.injEq] at h
  obtain ⟨hflags, hdebug, hcalls⟩ := h
  have hcalls : f.calls.map s.callOutline = f'.calls.map s'.callOutline := by
    have houtline : ∀ (s : Store) (calls : List CallEdge), calls.map s.callOutline =
        (calls.map s.namedCall).map fun call => ⟨call.callee, call.kind, call.preserved⟩ := by
      intro s calls
      rw [List.map_map]
      rfl
    rw [houtline, houtline, hcalls]
  rw [functionOutline, functionOutline, hid, hflags, hdebug, hcalls]

lemma mem_functionOutlines (hs : s.Faithful) (hs' : s'.Faithful) (h : s.named = s'.named)
    {o : FunctionOutline} (ho : o ∈ s.functions.values.map s.functionOutline) :
    o ∈ s'.functions.values.map s'.functionOutline := by
  obtain ⟨f, hf, rfl⟩ := List.mem_map.mp ho
  obtain ⟨id, hf⟩ := IdMap.mem_values_iff.mp hf
  have hid : f.id = id := (hs.wellFormed.functions hf).id_eq
  have hnamed := hs.functions_named_eq hf
  rw [h] at hnamed
  obtain ⟨id', f', hid', hf', heq⟩ := functions_named_eq_some_iff.mp hnamed
  refine List.mem_map.mpr ⟨f', IdMap.mem_values_iff.mpr ⟨id', hf'⟩, ?_⟩
  apply functionOutline_eq_of_named _ heq
  rw [(hs'.wellFormed.functions hf').id_eq, hid]
  exact shownName_of_lookup hs'.size_lt hid'

/-! ### Types -/

lemma mem_witnessOutlines (hs : s.Faithful) {id : SymbolId} (ht : s.type? id = some t)
    {o : WitnessOutline} :
    (o ∈ t.witnesses.entries.map fun (requirement, implementation) =>
      (⟨s.shownName requirement, s.shownName implementation⟩ : WitnessOutline)) ↔
      (s.namedTables t).witnesses o.requirement = some o.implementation := by
  obtain ⟨requirement, implementation⟩ := o
  simp only [List.mem_map, Prod.exists, IdMap.mem_entries_iff, WitnessOutline.mk.injEq,
    witnesses_namedTables_eq_some_iff]
  refine exists₂_congr fun r i => ?_
  constructor
  · rintro ⟨hi, rfl, rfl⟩
    exact ⟨lookup_shownName hs.size_lt (hs.wellFormed.contains_witness ht hi).1, hi, rfl⟩
  · rintro ⟨hr, hi, rfl⟩
    exact ⟨hi, shownName_of_lookup hs.size_lt hr, rfl⟩

lemma nodup_requirements (hs : s.WellFormed) {id : SymbolId} (ht : s.type? id = some t) :
    ((t.witnesses.entries.map fun (requirement, implementation) =>
      (⟨s.shownName requirement, s.shownName implementation⟩ : WitnessOutline)).map
        (·.requirement)).Nodup := by
  have hkeys : ((t.witnesses.entries.map fun (requirement, implementation) =>
      (⟨s.shownName requirement, s.shownName implementation⟩ : WitnessOutline)).map
        (·.requirement)) = t.witnesses.keys.map s.shownName := by
    rw [IdMap.keys, List.map_map, List.map_map]
    rfl
  rw [hkeys]
  apply List.Nodup.map_on _ t.witnesses.keys_nodup
  intro r hr r' hr' heq
  obtain ⟨i, hi⟩ := IdMap.mem_keys_iff.mp hr
  obtain ⟨i', hi'⟩ := IdMap.mem_keys_iff.mp hr'
  exact shownName_injective (hs.contains_witness ht hi).1 (hs.contains_witness ht hi').1 heq

lemma typeOutline_eq_of_named (hs : s.Faithful) (hs' : s'.Faithful) {id id' : SymbolId}
    (ht : s.type? id = some t) (ht' : s'.type? id' = some t')
    (hid : s.shownName t.id = s'.shownName t'.id) (h : s.namedTables t = s'.namedTables t') :
    s.typeOutline t = s'.typeOutline t' := by
  have hwitnesses : (s.typeOutline t).witnesses = (s'.typeOutline t').witnesses := by
    apply sortByName_eq_of_mem_iff (nodup_requirements hs.wellFormed ht)
      (nodup_requirements hs'.wellFormed ht')
    intro o
    rw [mem_witnessOutlines hs ht, mem_witnessOutlines hs' ht', h]
  have hbase : t.base.map s.shownName = t'.base.map s'.shownName :=
    congrArg Program.Tables.base h
  have hslots : t.slots.map s.shownName = t'.slots.map s'.shownName :=
    congrArg Program.Tables.slots h
  rw [typeOutline, typeOutline, TypeOutline.mk.injEq]
  exact ⟨hid, hbase, hslots, hwitnesses⟩

lemma mem_typeOutlines (hs : s.Faithful) (hs' : s'.Faithful) (h : s.named = s'.named)
    {o : TypeOutline} (ho : o ∈ s.types.values.map s.typeOutline) :
    o ∈ s'.types.values.map s'.typeOutline := by
  obtain ⟨t, ht, rfl⟩ := List.mem_map.mp ho
  obtain ⟨id, ht⟩ := IdMap.mem_values_iff.mp ht
  have hid : t.id = id := (hs.wellFormed.types ht).id_eq
  have hnamed := hs.types_named_eq ht
  rw [h] at hnamed
  obtain ⟨id', t', hid', ht', heq⟩ := types_named_eq_some_iff.mp hnamed
  refine List.mem_map.mpr ⟨t', IdMap.mem_values_iff.mpr ⟨id', ht'⟩, ?_⟩
  apply typeOutline_eq_of_named hs' hs ht' ht _ heq
  rw [(hs'.wellFormed.types ht').id_eq, hid]
  exact shownName_of_lookup hs'.size_lt hid'

/-! ### Stores -/

/-- What a store tells by name determines its outline. -/
theorem outline_eq_of_named (hs : s.Faithful) (hs' : s'.Faithful)
    (hmodule : s.moduleName = s'.moduleName) (hcomputed : s.livenessComputed = s'.livenessComputed)
    (h : s.named = s'.named) : s.outline = s'.outline := by
  have hfunctions : s.outline.functions = s'.outline.functions := by
    apply sortByName_eq_of_mem_iff
    · rw [List.map_map]
      exact hs.wellFormed.nodup_functionNames
    · rw [List.map_map]
      exact hs'.wellFormed.nodup_functionNames
    · intro o
      exact ⟨mem_functionOutlines hs hs' h, mem_functionOutlines hs' hs h.symm⟩
  have htypes : s.outline.types = s'.outline.types := by
    apply sortByName_eq_of_mem_iff
    · rw [List.map_map]
      exact hs.wellFormed.nodup_typeNames
    · rw [List.map_map]
      exact hs'.wellFormed.nodup_typeNames
    · intro o
      exact ⟨mem_typeOutlines hs hs' h, mem_typeOutlines hs' hs h.symm⟩
  rw [outline, outline, Outline.mk.injEq]
  exact ⟨hmodule, hcomputed, hfunctions, htypes⟩

lemma toYaml_eq_of_named (hs : s.Faithful) (hs' : s'.Faithful)
    (hmodule : s.moduleName = s'.moduleName) (hcomputed : s.livenessComputed = s'.livenessComputed)
    (h : s.named = s'.named) : s.toYaml = s'.toYaml := by
  rw [toYaml, toYaml, outline_eq_of_named hs hs' hmodule hcomputed h]

end Store

end LinkSummary
