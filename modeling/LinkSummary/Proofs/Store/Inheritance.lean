import LinkSummary.Proofs.Store.WellFormed
import LinkSummary.Store.Vtable
import Mathlib.Algebra.Order.BigOperators.Group.List
import Mathlib.Algebra.Order.Ring.Nat

/-!
# Inheriting missing slots

If types are filed under their own ids, a round continues each vtable by the slots that it lacks of
its base's at the beginning of the round, and changes nothing else. A round with a short table fills
a slot, and no table becomes longer than the longest, so the rounds end when no table is short.
-/

namespace LinkSummary.Store

variable {s s' : Store} {t base : TypeSummary} {id : SymbolId}

/-! ### Short tables -/

/-- No derived class has fewer slots than its base. -/
def SlotsCoverBases (s : Store) : Prop :=
  ∀ t ∈ s.types.values, ∀ base, s.baseOf? t = some base → base.slots.length ≤ t.slots.length

lemma vtableError?_eq_none_iff : s.vtableError? t = none ↔
    ∀ base, s.baseOf? t = some base → base.slots.length ≤ t.slots.length := by
  rw [vtableError?]
  cases s.baseOf? t with
  | none => simp
  | some base => simp

theorem checkVtables_eq_ok_iff : s.checkVtables = .ok () ↔ s.SlotsCoverBases := by
  have hnone : s.types.values.findSome? s.vtableError? = none ↔ s.SlotsCoverBases := by
    simp only [List.findSome?_eq_none_iff, vtableError?_eq_none_iff, SlotsCoverBases]
  rw [checkVtables, ← hnone]
  cases s.types.values.findSome? s.vtableError? <;> simp

lemma slotsCoverBases_iff : s.SlotsCoverBases ↔ ∀ id t base u, s.type? id = some t →
    t.base = some base → s.type? base = some u → u.slots.length ≤ t.slots.length := by
  simp only [SlotsCoverBases, IdMap.mem_values_iff, baseOf?, Option.bind_eq_bind,
    Option.bind_eq_some_iff]
  constructor
  · intro h id t base u ht hbase hu
    exact h t ⟨id, ht⟩ u ⟨base, hbase, hu⟩
  · rintro h t ⟨id, ht⟩ u ⟨base, hbase, hu⟩
    exact h id t base u ht hbase hu

/-- The vtable check sees the types and the names of symbols only. -/
lemma checkVtables_congr (htypes : s'.types = s.types) (hsymbols : s'.symbols = s.symbols) :
    s'.checkVtables = s.checkVtables := by
  have htype : s'.type? = s.type? := by
    funext id
    rw [type?, type?, htypes]
  have herror : s'.vtableError? = s.vtableError? := by
    funext t
    simp only [vtableError?, baseOf?, shortVtableError, htype, hsymbols]
  rw [checkVtables, checkVtables, herror, htypes]

lemma missingSlots_eq_nil_iff : s.missingSlots t = [] ↔
    ∀ base, s.baseOf? t = some base → base.slots.length ≤ t.slots.length := by
  rw [missingSlots]
  cases s.baseOf? t with
  | none => simp
  | some base => simp [List.drop_eq_nil_iff]

lemma shortTypes_eq_nil_iff : s.shortTypes = [] ↔ s.SlotsCoverBases := by
  simp only [shortTypes, List.filter_eq_nil_iff, List.forall_mem_map, Bool.not_eq_true',
    Bool.not_eq_false, List.isEmpty_iff, missingSlots_eq_nil_iff, SlotsCoverBases]

/-! ### A round -/

/-- A type with more slots at the end. -/
def addSlots (rest : List SymbolId) (t : TypeSummary) : TypeSummary :=
  { t with slots := t.slots ++ rest }

/-- A type with the slots that it lacks. -/
def completed (s : Store) (t : TypeSummary) : TypeSummary :=
  addSlots (s.missingSlots t) t

lemma fst_extendSlots (acc : Store × Extensions) (short : SymbolId × List SymbolId) :
    (extendSlots acc short).1 =
      { acc.1 with types := acc.1.types.modify short.1 (addSlots short.2) } := by
  obtain ⟨s, extended⟩ := acc
  obtain ⟨id, rest⟩ := short
  simp only [extendSlots, type?]
  cases h : s.types.get? id with
  | none => simp only [IdMap.modify_eq_self h]
  | some t => rfl

lemma fst_foldl_extendSlots (shorts : List (SymbolId × List SymbolId)) (acc : Store × Extensions) :
    (shorts.foldl extendSlots acc).1 =
      { acc.1 with types :=
          shorts.foldl (fun types x => types.modify x.1 (addSlots x.2)) acc.1.types } := by
  induction shorts generalizing acc with
  | nil => rfl
  | cons short shorts ih => rw [List.foldl_cons, ih, fst_extendSlots, List.foldl_cons]

lemma TypesFiled.nodup_shortTypes (hs : s.TypesFiled) : (s.shortTypes.map (·.1)).Nodup := by
  rw [shortTypes, IdMap.map_values_of_key_eq hs.id_eq_of_mem]
  refine List.Nodup.sublist (List.filter_sublist.map _) ?_
  rw [List.map_map]
  exact s.types.keys_nodup

lemma TypesFiled.mem_shortTypes (hs : s.TypesFiled) {rest : List SymbolId} :
    (id, rest) ∈ s.shortTypes ↔
      ∃ t, s.type? id = some t ∧ s.missingSlots t = rest ∧ rest ≠ [] := by
  rw [shortTypes, IdMap.map_values_of_key_eq hs.id_eq_of_mem, List.mem_filter, List.mem_map]
  constructor
  · rintro ⟨⟨e, he, heq⟩, hne⟩
    cases heq
    exact ⟨e.2, IdMap.mem_entries_iff.mp he, rfl, by simpa using hne⟩
  · rintro ⟨t, ht, rfl, hne⟩
    exact ⟨⟨(id, t), IdMap.mem_entries_iff.mpr ht, rfl⟩, by simpa using hne⟩

/-- A round completes every type at once. -/
theorem TypesFiled.fst_inheritRound {acc : Store × Extensions} (hs : acc.1.TypesFiled) :
    (inheritRound acc).1 = { acc.1 with types := acc.1.types.map acc.1.completed } := by
  suffices htypes : acc.1.shortTypes.foldl (fun types x => types.modify x.1 (addSlots x.2))
      acc.1.types = acc.1.types.map acc.1.completed by
    rw [inheritRound, fst_foldl_extendSlots, htypes]
  apply IdMap.ext_get?
  intro id
  rw [IdMap.get?_foldl_modify addSlots hs.nodup_shortTypes, IdMap.get?_map]
  cases ht : acc.1.types.get? id with
  | none => rfl
  | some t =>
    rw [Option.map_some, Option.map_some, Option.some.injEq, completed]
    by_cases hmissing : acc.1.missingSlots t = []
    · have hnone : IdMap.valueAt id acc.1.shortTypes = none := by
        rw [Option.eq_none_iff_forall_ne_some]
        intro rest hrest
        obtain ⟨t', ht', rfl, hne⟩ := hs.mem_shortTypes.mp (IdMap.mem_of_valueAt hrest)
        rw [type?, ht, Option.some.injEq] at ht'
        exact hne (ht' ▸ hmissing)
      rw [hnone, hmissing]
      simp [addSlots]
    · have hmem := hs.mem_shortTypes.mpr ⟨t, ht, rfl, hmissing⟩
      rw [IdMap.valueAt_of_mem_of_nodup hs.nodup_shortTypes hmem]
      rfl

lemma mem_mentioned_of_mem_missingSlots (hs : s.WellFormed) {x : SymbolId}
    (hx : x ∈ s.missingSlots t) : s.symbols.contains x = true := by
  rw [missingSlots] at hx
  split at hx
  · rename_i base hbase
    obtain ⟨baseId, -, hbase⟩ := Option.bind_eq_some_iff.mp hbase
    have hslot : x ∈ base.slots := List.mem_of_mem_drop hx
    exact (hs.types hbase).interned x (TypeSummary.mem_mentioned.mpr (.inr (.inr (.inl hslot))))
  · cases hx

lemma fitsAt_completed (hs : s.WellFormed) (ht : t.FitsAt s.symbols id) :
    (s.completed t).FitsAt s.symbols id := by
  refine ⟨ht.id_eq, ?_⟩
  intro x hx
  rcases TypeSummary.mem_mentioned.mp hx with hx | hx | hx | hx
  · exact ht.interned x (TypeSummary.mem_mentioned.mpr (.inl hx))
  · exact ht.interned x (TypeSummary.mem_mentioned.mpr (.inr (.inl hx)))
  · rcases List.mem_append.mp hx with hx | hx
    · exact ht.interned x (TypeSummary.mem_mentioned.mpr (.inr (.inr (.inl hx))))
    · exact mem_mentioned_of_mem_missingSlots hs hx
  · exact ht.interned x (TypeSummary.mem_mentioned.mpr (.inr (.inr (.inr hx))))

lemma TypesFiled.inheritRound {acc : Store × Extensions} (hs : acc.1.TypesFiled) :
    (inheritRound acc).1.TypesFiled := by
  rw [hs.fst_inheritRound]
  intro id t ht
  simp only [type?, IdMap.get?_map] at ht
  obtain ⟨t', ht', rfl⟩ := Option.map_eq_some_iff.mp ht
  exact hs id t' ht'

lemma WellFormed.inheritRound {acc : Store × Extensions} (hs : acc.1.WellFormed) :
    (inheritRound acc).1.WellFormed := by
  rw [hs.typesFiled.fst_inheritRound]
  refine ⟨hs.functions, ?_⟩
  intro id t ht
  simp only [type?, IdMap.get?_map] at ht
  obtain ⟨t', ht', rfl⟩ := Option.map_eq_some_iff.mp ht
  exact fitsAt_completed hs (hs.types ht')

/-! ### The rounds end -/

/-- The number of slots that are still free if all tables are to have the same length. -/
def freeSlots (s : Store) (length : Nat) : Nat :=
  (s.types.values.map fun t => length - t.slots.length).sum

lemma length_completed (s : Store) (t : TypeSummary) :
    (s.completed t).slots.length = t.slots.length + (s.missingSlots t).length :=
  List.length_append

lemma mem_values_of_baseOf? (h : s.baseOf? t = some base) : base ∈ s.types.values := by
  obtain ⟨baseId, -, hbase⟩ := Option.bind_eq_some_iff.mp h
  exact IdMap.mem_values_iff.mpr ⟨baseId, hbase⟩

/-- No table becomes longer than the longest. -/
lemma length_completed_le {length : Nat} (hlen : ∀ t ∈ s.types.values, t.slots.length ≤ length)
    (ht : t ∈ s.types.values) : (s.completed t).slots.length ≤ length := by
  rw [length_completed, missingSlots]
  split
  · rename_i base hbase
    have hle := hlen t ht
    have hbasele := hlen base (mem_values_of_baseOf? hbase)
    rw [List.length_drop]
    omega
  · simpa using hlen t ht

/-- A round with a short table fills a slot. -/
lemma freeSlots_inheritRound_lt {length : Nat} {acc : Store × Extensions} (hs : acc.1.TypesFiled)
    (hlen : ∀ t ∈ acc.1.types.values, t.slots.length ≤ length) (hshort : acc.1.shortTypes ≠ []) :
    (inheritRound acc).1.freeSlots length < acc.1.freeSlots length := by
  obtain ⟨⟨id, rest⟩, hmem⟩ := List.exists_mem_of_ne_nil _ hshort
  obtain ⟨t, ht, rfl, hne⟩ := hs.mem_shortTypes.mp hmem
  have htmem : t ∈ acc.1.types.values := IdMap.mem_values_iff.mpr ⟨id, ht⟩
  rw [hs.fst_inheritRound, freeSlots, freeSlots, IdMap.values_map, List.map_map]
  refine List.sum_lt_sum _ _ ?_ ⟨t, htmem, ?_⟩
  · intro u hu
    rw [Function.comp_apply, length_completed]
    omega
  · have hpos := List.length_pos_iff.mpr hne
    have hle := length_completed_le hlen htmem
    rw [Function.comp_apply]
    rw [length_completed] at hle ⊢
    omega

/-- What a round with a short table keeps, all rounds keep. -/
lemma inheritRounds_induction {P : Store × Extensions → Prop}
    (hround : ∀ acc, P acc → P (inheritRound acc)) (fuel : Nat) {acc : Store × Extensions}
    (h : P acc) : P (inheritRounds fuel acc) := by
  induction fuel generalizing acc with
  | zero => exact h
  | succ fuel ih =>
    rw [inheritRounds]
    split
    · exact h
    · exact ih (hround acc h)

/-- Rounds follow one another as long as a table is short, no more than `fuel` of them. -/
lemma exists_inheritRounds_eq_iterate (fuel : Nat) (acc : Store × Extensions) :
    ∃ n ≤ fuel, inheritRounds fuel acc = inheritRound^[n] acc ∧
      ∀ m < n, (inheritRound^[m] acc).1.shortTypes ≠ [] := by
  induction fuel generalizing acc with
  | zero => exact ⟨0, le_refl 0, rfl, nofun⟩
  | succ fuel ih =>
    rw [inheritRounds]
    split
    · exact ⟨0, Nat.zero_le _, rfl, nofun⟩
    · rename_i hshort
      obtain ⟨n, hn, heq, hbefore⟩ := ih (inheritRound acc)
      refine ⟨n + 1, Nat.succ_le_succ hn, heq, ?_⟩
      intro m hm
      cases m with
      | zero => simpa using hshort
      | succ m => exact hbefore m (by omega)

/-- With as many rounds as free slots, no table stays short. -/
lemma slotsCoverBases_inheritRounds {length fuel : Nat} (acc : Store × Extensions)
    (hs : acc.1.TypesFiled) (hlen : ∀ t ∈ acc.1.types.values, t.slots.length ≤ length)
    (hfuel : acc.1.freeSlots length < fuel) : (inheritRounds fuel acc).1.SlotsCoverBases := by
  induction fuel generalizing acc with
  | zero => cases hfuel
  | succ fuel ih =>
    rw [Store.inheritRounds]
    split
    · rename_i hempty
      exact shortTypes_eq_nil_iff.mp (List.isEmpty_iff.mp hempty)
    · rename_i hshort
      rw [List.isEmpty_iff] at hshort
      have hlt := freeSlots_inheritRound_lt hs hlen hshort
      refine ih _ hs.inheritRound ?_ (by omega)
      rw [hs.fst_inheritRound, IdMap.values_map, List.forall_mem_map]
      exact fun t ht => length_completed_le hlen ht

lemma le_foldl_max {xs : List Nat} {x : Nat} (start : Nat) (h : x ∈ xs ∨ x ≤ start) :
    x ≤ xs.foldl max start := by
  induction xs generalizing start with
  | nil => simpa using h
  | cons y ys ih =>
    refine ih _ ?_
    rcases h with h | h
    · rcases List.mem_cons.mp h with rfl | h
      · exact .inr (le_max_right _ _)
      · exact .inl h
    · exact .inr (le_trans h (le_max_left _ _))

lemma freeSlots_le (s : Store) (length : Nat) : s.freeSlots length ≤ s.types.size * length := by
  have hle : ∀ x ∈ s.types.values.map (fun t => length - t.slots.length), x ≤ length := by
    simp only [List.forall_mem_map]
    omega
  have hsum := List.sum_le_card_nsmul _ _ hle
  simpa [freeSlots, IdMap.size, IdMap.values] using hsum

/-- Afterwards no derived class has fewer slots than its base. -/
theorem TypesFiled.slotsCoverBases_inheritMissingSlots (hs : s.TypesFiled) :
    s.inheritMissingSlots.1.SlotsCoverBases := by
  let longest := (s.types.values.map (·.slots.length)).foldl max 0
  have hlen : ∀ t ∈ s.types.values, t.slots.length ≤ longest := fun t ht =>
    le_foldl_max 0 (.inl (List.mem_map_of_mem (f := (·.slots.length)) ht))
  refine slotsCoverBases_inheritRounds (s, []) hs hlen ?_
  calc s.freeSlots longest ≤ s.types.size * longest := s.freeSlots_le longest
    _ < s.types.size * longest + s.types.size + (longest + 1) := by omega
    _ = (s.types.size + 1) * (longest + 1) := by rw [Nat.succ_mul, Nat.mul_succ]
    _ = s.roundBound := rfl

lemma WellFormed.inheritMissingSlots (hs : s.WellFormed) : s.inheritMissingSlots.1.WellFormed :=
  inheritRounds_induction (P := fun acc => acc.1.WellFormed) (fun _ h => h.inheritRound) _ hs

/-- Nothing but the types changes. -/
lemma fst_inheritMissingSlots_eq (s : Store) :
    s.inheritMissingSlots.1 = { s with types := s.inheritMissingSlots.1.types } := by
  refine inheritRounds_induction (P := fun acc => acc.1 = { s with types := acc.1.types }) ?_ _ rfl
  intro acc h
  rw [inheritRound, fst_foldl_extendSlots, h]

end LinkSummary.Store
