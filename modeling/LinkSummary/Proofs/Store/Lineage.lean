import LinkSummary.Proofs.Program.Inheritance
import LinkSummary.Proofs.Store.Operation
import Mathlib.Order.Bounds.Defs

/-!
# Slots from the nearest base that has them

The bases recorded for a type, one after the other, are its lineage. It ends before a base that the
store does not have, and before one that has been met already. Inheriting missing slots amounts to a
lookup: a slot holds what the first type of the lineage holds there whose own table reaches so far.
The rounds never mention a lineage; both agree with the relation `Program.Inherits`, which a round
keeps and which complete tables and lineages satisfy for different reasons.
-/

namespace LinkSummary.Store

variable {s : Store} {t u v : TypeSummary} {id base x : SymbolId} {met : List SymbolId} {i : Nat}
  {acc : Store × Extensions}

/-! ### The lineage of a type -/

lemma countP_keys_lt (ht : s.type? id = some t) (hmet : id ∉ met) :
    s.types.keys.countP (· ∉ id :: met) < s.types.keys.countP (· ∉ met) := by
  have hkey : id ∈ s.types.keys := IdMap.mem_keys_iff.mpr ⟨t, ht⟩
  have hsplit := List.countP_filter (p := (· ≠ id)) (q := (· ∉ met)) (l := s.types.keys)
  have hlt : (s.types.keys.filter (· ∉ met)).countP (· ≠ id) <
      (s.types.keys.filter (· ∉ met)).length := by
    apply Nat.lt_of_le_of_ne (List.countP_le_length)
    intro hall
    have hne := List.countP_eq_length.mp hall id (List.mem_filter.mpr ⟨hkey, by simpa using hmet⟩)
    simp at hne
  rw [hsplit, ← List.countP_eq_length_filter] at hlt
  simpa using hlt

/-- The type under an id, its base, and so on, as far as they are in the store and have not been
met. -/
def lineageFrom (s : Store) (met : List SymbolId) (id : SymbolId) : List TypeSummary :=
  if _ : id ∈ met then [] else
    match _ : s.type? id with
    | none => []
    | some t =>
      match t.base with
      | none => [t]
      | some base => t :: s.lineageFrom (id :: met) base
termination_by s.types.keys.countP (· ∉ met)
decreasing_by exact countP_keys_lt ‹_› ‹_›

/-- The type under an id followed by its bases, up to one that is missing or met again. -/
def lineage (s : Store) (id : SymbolId) : List TypeSummary := s.lineageFrom [] id

lemma mem_lineageFrom_self (ht : s.type? id = some t) (hmet : id ∉ met) :
    t ∈ s.lineageFrom met id := by
  fun_cases lineageFrom s met id with
  | case1 hmem => exact absurd hmem hmet
  | case2 _ hnone => rw [ht] at hnone; cases hnone
  | case3 _ t' ht' _ => simp_all
  | case4 _ t' ht' base _ => simp_all

/-- A lineage contains the base of each of its types, unless that was met before. -/
lemma mem_lineageFrom_of_base (hu : u ∈ s.lineageFrom met id) (hbase : u.base = some base)
    (hv : s.type? base = some v) : v ∈ s.lineageFrom met id ∨ base ∈ met := by
  fun_induction lineageFrom s met id with
  | case1 => cases hu
  | case2 => cases hu
  | case3 met id hmet t ht hnone =>
    obtain rfl := List.mem_singleton.mp hu
    rw [hnone] at hbase
    cases hbase
  | case4 met id hmet t ht b hb ih =>
    -- the type met last is the head
    have hcons : v ∈ s.lineageFrom (id :: met) b ∨ base ∈ id :: met →
        v ∈ t :: s.lineageFrom (id :: met) b ∨ base ∈ met := by
      rintro (hmem | hmem)
      · exact .inl (List.mem_cons_of_mem _ hmem)
      rcases List.mem_cons.mp hmem with rfl | hmem
      · rw [ht, Option.some.injEq] at hv
        exact .inl (hv ▸ List.mem_cons_self)
      · exact .inr hmem
    apply hcons
    rcases List.mem_cons.mp hu with rfl | hu
    · rw [hb, Option.some.injEq] at hbase
      subst hbase
      by_cases hagain : b ∈ id :: met
      · exact .inr hagain
      · exact .inl (mem_lineageFrom_self hv hagain)
    · exact ih hu

/-! ### Lookup along the lineage -/

/-- What the first of some types whose table reaches a slot holds there. -/
def lookupSlot (types : List TypeSummary) (i : Nat) : Option SymbolId :=
  types.findSome? fun t => t.slots[i]?

lemma inherits_of_lookupSlot_lineageFrom (h : lookupSlot (s.lineageFrom met id) i = some x) :
    s.program.Inherits id i x := by
  fun_induction lineageFrom s met id with
  | case1 => cases h
  | case2 => cases h
  | case3 met id hmet t ht hnone =>
    exact .own (types_program ht) (by simpa [lookupSlot, idTables] using h)
  | case4 met id hmet t ht base hbase ih =>
    rw [lookupSlot, List.findSome?_cons] at h
    cases hx : t.slots[i]? with
    | some y =>
      rw [hx, Option.some.injEq] at h
      exact .own (types_program ht) (h ▸ hx)
    | none =>
      rw [hx] at h
      exact .base (types_program ht) (List.getElem?_eq_none_iff.mp hx) hbase (ih h)

/-- Where something is inherited, the types on the way up are in the lineage, and so is one that
reaches the slot. -/
lemma exists_getElem?_of_inherits (types : List TypeSummary) (h : s.program.Inherits id i x)
    (hclosed : ∀ u ∈ types, ∀ base v, u.base = some base → s.type? base = some v → v ∈ types)
    (hmem : ∀ t, s.type? id = some t → t ∈ types) : ∃ u ∈ types, u.slots[i]? = some x := by
  induction h with
  | own hT hx =>
    obtain ⟨t, ht, rfl⟩ := Option.map_eq_some_iff.mp hT
    exact ⟨t, hmem t ht, hx⟩
  | base hT _ hbase _ ih =>
    obtain ⟨t, ht, rfl⟩ := Option.map_eq_some_iff.mp hT
    exact ih fun v hv => hclosed t (hmem t ht) _ v hbase hv

/-- A slot inherits what the nearest type of the lineage holds there. -/
theorem lookupSlot_lineage_eq_some_iff :
    lookupSlot (s.lineage id) i = some x ↔ s.program.Inherits id i x := by
  refine ⟨inherits_of_lookupSlot_lineageFrom, ?_⟩
  intro h
  obtain ⟨u, hu, hx⟩ := exists_getElem?_of_inherits (s.lineage id) h
    (fun u hu base v hbase hv =>
      (mem_lineageFrom_of_base hu hbase hv).resolve_right List.not_mem_nil)
    (fun t ht => mem_lineageFrom_self ht List.not_mem_nil)
  have hsome : (lookupSlot (s.lineage id) i).isSome := by
    rw [lookupSlot, List.findSome?_isSome_iff]
    exact ⟨u, hu, by simp [hx]⟩
  obtain ⟨y, hy⟩ := Option.isSome_iff_exists.mp hsome
  rw [hy, (inherits_of_lookupSlot_lineageFrom hy).unique h]

/-- A table looked up in others is as long as the longest of them. -/
lemma isGreatest_length_of_getElem? {slots : List SymbolId} {types : List TypeSummary}
    (hne : types ≠ []) (h : ∀ i : Nat, slots[i]? = lookupSlot types i) :
    IsGreatest {n | ∃ u ∈ types, u.slots.length = n} slots.length := by
  have hlt : ∀ i, i < slots.length ↔ ∃ u ∈ types, i < u.slots.length := by
    intro i
    have hsome : slots[i]?.isSome ↔ i < slots.length := by simp
    rw [← hsome, h, lookupSlot, List.findSome?_isSome_iff]
    simp
  have hle : ∀ u ∈ types, u.slots.length ≤ slots.length := fun u hu =>
    not_lt.mp fun hlong => lt_irrefl _ ((hlt slots.length).mpr ⟨u, hu, hlong⟩)
  constructor
  · rcases Nat.eq_zero_or_pos slots.length with hzero | hpos
    · obtain ⟨u, hu⟩ := List.exists_mem_of_ne_nil types hne
      exact ⟨u, hu, le_antisymm (hle u hu) (by omega)⟩
    · obtain ⟨u, hu, hlong⟩ := (hlt (slots.length - 1)).mp (by omega)
      exact ⟨u, hu, le_antisymm (hle u hu) (by omega)⟩
  · rintro _ ⟨u, hu, rfl⟩
    exact hle u hu

/-! ### The rounds by id -/

lemma missing_idTables (s : Store) (t : TypeSummary) :
    s.program.missing (idTables t) = s.missingSlots t := by
  simp only [Program.missing, missingSlots, baseOf?, idTables]
  cases hbase : t.base with
  | none => rfl
  | some base =>
    cases hu : s.type? base with
    | none => simp [program, hu]
    | some u => simp [program, hu, idTables]

lemma TypesFiled.type?_inheritRound (hs : acc.1.TypesFiled) (id : SymbolId) :
    (Store.inheritRound acc).1.type? id = (acc.1.type? id).map acc.1.completed := by
  rw [hs.fst_inheritRound]
  exact IdMap.get?_map ..

/-- A round of a store is a round of its program by id. -/
lemma TypesFiled.program_inheritRound (hs : acc.1.TypesFiled) :
    (Store.inheritRound acc).1.program = acc.1.program.round := by
  apply Program.ext
  · rw [hs.fst_inheritRound]
    rfl
  · funext id
    cases ht : acc.1.type? id with
    | none => simp [program, Program.round, hs.type?_inheritRound, ht]
    | some t =>
      rw [Program.types_round (types_program ht), missing_idTables,
        types_program (by rw [hs.type?_inheritRound, ht, Option.map_some])]
      rfl

lemma complete_program (h : s.SlotsCoverBases) : s.program.Complete := by
  intro id T base U hT hbase hU
  obtain ⟨t, ht, rfl⟩ := Option.map_eq_some_iff.mp hT
  obtain ⟨u, hu, rfl⟩ := Option.map_eq_some_iff.mp hU
  exact h t (IdMap.mem_values_iff.mpr ⟨id, ht⟩) u (Option.bind_eq_some_iff.mpr ⟨base, hbase, hu⟩)

/-- What holds of a store after any number of rounds: each type has kept what it had, and the tables
are continued by what is inherited. -/
structure ContinuedBy (s s' : Store) : Prop where
  typesFiled : s'.TypesFiled
  program : s.program.Continues s'.program
  types : ∀ id, ∃ rest, s'.type? id = (s.type? id).map (addSlots rest)

lemma ContinuedBy.inheritRound (h : s.ContinuedBy acc.1) :
    s.ContinuedBy (Store.inheritRound acc).1 where
  typesFiled := h.typesFiled.inheritRound
  program := by
    rw [h.typesFiled.program_inheritRound]
    exact h.program.trans acc.1.program.continues_round
  types id := by
    obtain ⟨rest, hrest⟩ := h.types id
    cases ht : s.type? id with
    | none =>
      rw [h.typesFiled.type?_inheritRound, hrest, ht]
      exact ⟨[], rfl⟩
    | some t =>
      refine ⟨rest ++ acc.1.missingSlots (addSlots rest t), ?_⟩
      rw [h.typesFiled.type?_inheritRound, hrest, ht]
      simp [completed, addSlots]

lemma TypesFiled.continuedBy_inheritMissingSlots (hs : s.TypesFiled) :
    s.ContinuedBy s.inheritMissingSlots.1 := by
  refine inheritRounds_induction (P := fun acc => s.ContinuedBy acc.1)
    (fun _ h => h.inheritRound) _ ⟨hs, .refl _, fun id => ⟨[], ?_⟩⟩
  cases h : s.type? id <;> simp [addSlots]

/-! ### The types listed -/

lemma nodup_extendSlots (h : (acc.2.map (·.1)).Nodup) (short : SymbolId × List SymbolId) :
    ((extendSlots acc short).2.map (·.1)).Nodup := by
  obtain ⟨s, extended⟩ := acc
  obtain ⟨id, rest⟩ := short
  simp only [extendSlots]
  split
  · exact h
  · split
    · exact h
    · rename_i hnew
      rw [List.map_append, List.map_singleton, ← List.concat_eq_append, List.nodup_concat]
      refine ⟨?_, h⟩
      simpa using hnew

lemma nodup_inheritMissingSlots (s : Store) : (s.inheritMissingSlots.2.map (·.1)).Nodup := by
  have hstart : ((s, ([] : Extensions)).2.map (·.1)).Nodup := List.nodup_nil
  refine inheritRounds_induction (P := fun acc => (acc.2.map (·.1)).Nodup) ?_ s.roundBound hstart
  intro acc h
  exact List.foldlRecOn (motive := fun acc : Store × Extensions => (acc.2.map (·.1)).Nodup) _ _ h
    fun _ h short _ => nodup_extendSlots h short

/-! ### The outcome -/

/-- The tables of `s'` are those of `s` looked up along the lineages, `extended` lists the types with
a longer table than before, and everything else is as it was. -/
structure InheritsAlong (s s' : Store) (extended : Extensions) : Prop where
  rest : s' = { s with types := s'.types }
  types_none : ∀ id, s.type? id = none → s'.type? id = none
  types_some : ∀ id t, s.type? id = some t → ∃ slots, s'.type? id = some { t with slots } ∧
    t.slots <+: slots ∧ IsGreatest {n | ∃ u ∈ s.lineage id, u.slots.length = n} slots.length ∧
      ∀ i : Nat, slots[i]? = lookupSlot (s.lineage id) i
  nodup_extended : (extended.map (·.1)).Nodup
  mem_extended_iff : ∀ id slot, (id, slot) ∈ extended ↔ ∃ t t', s.type? id = some t ∧
    s'.type? id = some t' ∧ slot = t.slots.length ∧ slot < t'.slots.length

lemma TypesFiled.exists_type?_inheritMissingSlots (hs : s.TypesFiled) (ht : s.type? id = some t) :
    ∃ slots, s.inheritMissingSlots.1.type? id = some { t with slots } ∧ t.slots <+: slots ∧
      ∀ i : Nat, slots[i]? = lookupSlot (s.lineage id) i := by
  have hcontinued := hs.continuedBy_inheritMissingSlots
  have hcomplete := complete_program hs.slotsCoverBases_inheritMissingSlots
  obtain ⟨rest, hrest⟩ := hcontinued.types id
  rw [ht, Option.map_some] at hrest
  refine ⟨t.slots ++ rest, hrest, List.prefix_append _ _, ?_⟩
  intro i
  apply Option.ext
  intro x
  rw [lookupSlot_lineage_eq_some_iff]
  exact hcontinued.program.getElem?_iff hcomplete (types_program hrest)

theorem TypesFiled.inheritsAlong_inheritMissingSlots (hs : s.TypesFiled) :
    s.InheritsAlong s.inheritMissingSlots.1 s.inheritMissingSlots.2 where
  rest := s.fst_inheritMissingSlots_eq
  types_none id hid := by
    obtain ⟨rest, hrest⟩ := hs.continuedBy_inheritMissingSlots.types id
    rw [hrest, hid, Option.map_none]
  types_some id t ht := by
    obtain ⟨slots, hslots, hprefix, hlookup⟩ := hs.exists_type?_inheritMissingSlots ht
    have hne : s.lineage id ≠ [] := List.ne_nil_of_mem (mem_lineageFrom_self ht List.not_mem_nil)
    exact ⟨slots, hslots, hprefix, isGreatest_length_of_getElem? hne hlookup, hlookup⟩
  nodup_extended := s.nodup_inheritMissingSlots
  mem_extended_iff _ _ := mem_snd_inheritMissingSlots

/-- Complete tables are left alone. -/
lemma inheritMissingSlots_eq_self (h : s.SlotsCoverBases) : s.inheritMissingSlots = (s, []) := by
  obtain ⟨n, -, heq, hbefore⟩ := exists_inheritRounds_eq_iterate s.roundBound (s, [])
  cases n with
  | zero => exact heq
  | succ n => exact absurd (shortTypes_eq_nil_iff.mpr h) (hbefore 0 (Nat.succ_pos n))

/-- In a store made by any calls, inheriting missing slots looks each slot up along the lineage. The
rounds are those of an unbounded loop that goes on while a table is short, and that loop ends. The
outcome passes the check of vtables, and to inherit once more changes nothing. -/
theorem inheritMissingSlots_performAll (moduleName : String) (operations : List Operation) :
    let s := performAll moduleName operations
    let (s', extended) := s.inheritMissingSlots
    (∃ n, (s', extended) = inheritRound^[n] (s, []) ∧
        (∀ m < n, (inheritRound^[m] (s, [])).1.shortTypes ≠ []) ∧ s'.shortTypes = []) ∧
      s.InheritsAlong s' extended ∧ s'.checkVtables = .ok () ∧
        s'.inheritMissingSlots = (s', []) := by
  intro s
  have hs : s.TypesFiled := typesFiled_performAll moduleName operations
  have hcover := hs.slotsCoverBases_inheritMissingSlots
  obtain ⟨n, -, heq, hbefore⟩ := exists_inheritRounds_eq_iterate s.roundBound (s, [])
  exact ⟨⟨n, heq, hbefore, shortTypes_eq_nil_iff.mpr hcover⟩,
    hs.inheritsAlong_inheritMissingSlots, checkVtables_eq_ok_iff.mpr hcover,
    inheritMissingSlots_eq_self hcover⟩

/-- Two types are each other's base, and a third is derived from them. It gets its second slot in
the second round only. -/
example :
    let s := performAll "m" [.intern "A", .intern "B", .intern "C", .intern "f", .intern "g",
      .insertType { id := ⟨1⟩, base := some ⟨2⟩, slots := [⟨4⟩, ⟨5⟩] },
      .insertType { id := ⟨2⟩, base := some ⟨1⟩, slots := [⟨5⟩] },
      .insertType { id := ⟨3⟩, base := some ⟨2⟩ }]
    let (s', extended) := s.inheritMissingSlots
    (s'.type? ⟨3⟩).map (·.slots) = some [⟨5⟩, ⟨5⟩] ∧ extended = [(⟨2⟩, 1), (⟨3⟩, 0)] := by
  decide +kernel

end LinkSummary.Store
