import LinkSummary.IdMap
import Mathlib.Tactic.Common

/-!
# Laws of finite maps keyed by symbol ids

A map is determined by its look-ups, its keys are those that lead to a value, and a list of entries
with different keys is read back as it was written.
-/

namespace LinkSummary.IdMap

variable {α β : Type} {m m' : IdMap α} {k : SymbolId} {v : α} {es : List (SymbolId × α)}

/-! ### Keys and values -/

lemma valueAt_eq_none_iff : valueAt k es = none ↔ k ∉ es.map (·.1) := by
  induction es with
  | nil => simp [valueAt]
  | cons e es ih =>
    by_cases h : e.1 = k
    · simp [valueAt, h]
    · rw [valueAt, if_neg h, ih, List.map_cons, List.mem_cons, not_or]
      exact ⟨fun hes => ⟨fun hk => h hk.symm, hes⟩, fun hes => hes.2⟩

lemma mem_keys_iff : k ∈ m.keys ↔ ∃ v, m.get? k = some v := by
  rw [← Option.ne_none_iff_exists', get?, ne_eq, valueAt_eq_none_iff, not_not]
  rfl

lemma mem_values_iff : v ∈ m.values ↔ ∃ k, m.get? k = some v := by
  simp only [values, List.mem_map, Prod.exists, exists_eq_right, mem_entries_iff]

lemma contains_iff : m.contains k = true ↔ ∃ v, m.get? k = some v :=
  Option.isSome_iff_exists

lemma contains_iff_mem_keys : m.contains k = true ↔ k ∈ m.keys := by
  rw [contains_iff, mem_keys_iff]

lemma keys_pairwise (m : IdMap α) : m.keys.Pairwise (· < ·) :=
  pairwise_iff_keys.mp m.sorted

lemma nodup_of_pairwise_lt {ks : List SymbolId} (h : ks.Pairwise (· < ·)) : ks.Nodup :=
  h.imp SymbolId.ne_of_lt

lemma keys_nodup (m : IdMap α) : m.keys.Nodup :=
  nodup_of_pairwise_lt m.keys_pairwise

@[simp] lemma values_map (f : α → β) (m : IdMap α) : (m.map f).values = m.values.map f := by
  simp [values, map]

/-- When each value knows its key, the values tell the entries. -/
lemma map_values_of_key_eq {key : α → SymbolId} (h : ∀ e ∈ m.entries, key e.2 = e.1)
    (g : α → β) : m.values.map (fun v => (key v, g v)) = m.entries.map fun e => (e.1, g e.2) := by
  rw [values, List.map_map]
  apply List.map_congr_left
  intro e he
  simp only [Function.comp_apply, h e he]

lemma map_key_values {key : α → SymbolId} (h : ∀ e ∈ m.entries, key e.2 = e.1) :
    m.values.map key = m.keys := by
  rw [values, List.map_map]
  exact List.map_congr_left h

/-- Keys are counted with their values. -/
lemma countP_keys {p : SymbolId → Bool} {q : α → Bool} (h : ∀ k v, m.get? k = some v → p k = q v) :
    m.keys.countP p = m.values.countP q := by
  rw [keys, values, List.countP_map, List.countP_map]
  apply List.countP_congr
  intro e he
  rw [Function.comp_apply, Function.comp_apply, h e.1 e.2 (mem_entries_iff.mp he)]

@[simp] lemma contains_modify (m : IdMap α) (k k' : SymbolId) (f : α → α) :
    (m.modify k f).contains k' = m.contains k' := by
  rw [contains, get?_modify]
  split <;> simp [contains]

@[simp] lemma contains_insert (m : IdMap α) (k k' : SymbolId) (v : α) :
    (m.insert k v).contains k' = (decide (k' = k) || m.contains k') := by
  rw [contains, get?_insert]
  split <;> simp_all [contains]

lemma size_insert (h : m.contains k = false) : (m.insert k v).size = m.size + 1 := by
  rw [contains, Option.isSome_eq_false_iff, Option.isNone_iff_eq_none, get?] at h
  simp only [size, insert]
  generalize m.entries = es at h
  induction es with
  | nil => rfl
  | cons e es ih =>
    rw [valueAt_eq_none_iff, List.map_cons, List.mem_cons, not_or] at h
    rw [insertEntry]
    split
    · rfl
    · rw [if_neg h.1, List.length_cons, List.length_cons, ih (valueAt_eq_none_iff.mpr h.2)]

/-! ### Extensionality -/

private lemma valueAt_of_lt (h : ∀ e ∈ es, k < e.1) : valueAt k es = none := by
  rw [valueAt_eq_none_iff, List.mem_map]
  rintro ⟨e, he, rfl⟩
  exact SymbolId.lt_irrefl _ (h e he)

/-- In lists with increasing keys, the heads are told by looking up the smaller of their keys. -/
private lemma entries_ext {es' : List (SymbolId × α)} (hs : es.Pairwise (·.1 < ·.1))
    (hs' : es'.Pairwise (·.1 < ·.1)) (h : ∀ k, valueAt k es = valueAt k es') : es = es' := by
  induction es generalizing es' with
  | nil =>
    cases es' with
    | nil => rfl
    | cons e' es' => simpa [valueAt] using h e'.1
  | cons e es ih =>
    cases es' with
    | nil => simpa [valueAt] using h e.1
    | cons e' es' =>
      obtain ⟨hlt, hs⟩ := List.pairwise_cons.mp hs
      obtain ⟨hlt', hs'⟩ := List.pairwise_cons.mp hs'
      have hkey : e.1 = e'.1 := by
        by_contra hne
        by_cases hle : e.1 < e'.1
        · have hnone : valueAt e.1 (e' :: es') = none := by
            apply valueAt_of_lt
            intro x hx
            rcases List.mem_cons.mp hx with rfl | hx
            · exact hle
            · exact SymbolId.lt_trans hle (hlt' x hx)
          rw [← h, valueAt, if_pos rfl] at hnone
          cases hnone
        · have hgt := SymbolId.lt_of_not_lt_of_ne hle hne
          have hnone : valueAt e'.1 (e :: es) = none := by
            apply valueAt_of_lt
            intro x hx
            rcases List.mem_cons.mp hx with rfl | hx
            · exact hgt
            · exact SymbolId.lt_trans hgt (hlt x hx)
          rw [h, valueAt, if_pos rfl] at hnone
          cases hnone
      have hval : e.2 = e'.2 := by simpa [valueAt, hkey] using h e.1
      have htail : es = es' := by
        apply ih hs hs'
        intro k
        by_cases hk : e.1 = k
        · subst hk
          rw [valueAt_of_lt hlt, valueAt_of_lt (hkey ▸ hlt')]
        · simpa [valueAt, hk, hkey ▸ hk] using h k
      rw [htail, Prod.ext hkey hval]

/-- A map is determined by its look-ups. -/
theorem ext_get? (h : ∀ k, m.get? k = m'.get? k) : m = m' := by
  have hes := entries_ext m.sorted m'.sorted h
  cases m
  cases m'
  congr

/-- Maps with the same keys in use list them alike. -/
lemma keys_congr (h : ∀ k, m.contains k = m'.contains k) :
    m.keys = m'.keys := by
  have hunits : m.map (fun _ => ()) = m'.map fun _ => () := by
    apply ext_get?
    intro k
    rw [get?_map, get?_map]
    have hk := h k
    simp only [contains] at hk
    cases hm : m.get? k <;> cases hm' : m'.get? k <;> simp_all
  have hkeys : ∀ m : IdMap α, (m.map fun _ => ()).keys = m.keys := fun m => by
    rw [keys, map, List.map_map]
    rfl
  rw [← hkeys m, hunits, hkeys]

/-! ### Change of several values -/

/-- Changes under different keys do not meet. -/
lemma get?_foldl_modify {γ : Type} (g : γ → α → α) {xs : List (SymbolId × γ)}
    (hxs : (xs.map (·.1)).Nodup) (m : IdMap α) (k : SymbolId) :
    (xs.foldl (fun m x => m.modify x.1 (g x.2)) m).get? k =
      (m.get? k).map fun v => ((valueAt k xs).map (g · v)).getD v := by
  induction xs generalizing m with
  | nil => simp [valueAt]
  | cons x xs ih =>
    rw [List.map_cons, List.nodup_cons] at hxs
    rw [List.foldl_cons, ih hxs.2, get?_modify]
    by_cases hk : k = x.1
    · have hnone : valueAt k xs = none := valueAt_eq_none_iff.mpr (hk ▸ hxs.1)
      cases m.get? k <;> simp [valueAt, hk, hk ▸ hnone]
    · simp [valueAt, hk, Ne.symm hk]

lemma modify_eq_self (h : m.get? k = none) (f : α → α) : m.modify k f = m := by
  apply ext_get?
  intro k'
  rw [get?_modify]
  split
  · simp_all
  · rfl

/-! ### Maps of lists -/

lemma valueAt_append (es es' : List (SymbolId × α)) (k : SymbolId) :
    valueAt k (es ++ es') = (valueAt k es).or (valueAt k es') := by
  induction es with
  | nil => rfl
  | cons e es ih =>
    simp only [List.cons_append, valueAt]
    split
    · rfl
    · exact ih

/-- Of several entries with one key the last counts. -/
lemma get?_ofList (es : List (SymbolId × α)) (k : SymbolId) :
    (ofList es).get? k = valueAt k es.reverse := by
  have hfold : ∀ m : IdMap α, (es.foldl (fun m e => m.insert e.1 e.2) m).get? k =
      (valueAt k es.reverse).or (m.get? k) := by
    induction es with
    | nil => exact fun m => rfl
    | cons e es ih =>
      intro m
      rw [List.foldl_cons, ih, get?_insert, List.reverse_cons, valueAt_append, Option.or_assoc]
      congr 1
      by_cases hk : k = e.1
      · simp [valueAt, hk]
      · simp [valueAt, hk, Ne.symm hk]
  rw [ofList, hfold, get?_empty, Option.or_none]

lemma mem_keys_ofList : k ∈ (ofList es).keys ↔ k ∈ es.map (·.1) := by
  rw [mem_keys_iff, ← Option.ne_none_iff_exists', get?_ofList, ne_eq, valueAt_eq_none_iff, not_not,
    List.map_reverse, List.mem_reverse]

lemma ofList_concat (es : List (SymbolId × α)) (e : SymbolId × α) :
    ofList (es ++ [e]) = (ofList es).insert e.1 e.2 := by
  rw [ofList, List.foldl_append]
  rfl

lemma valueAt_of_mem_of_nodup (hes : (es.map (·.1)).Nodup) (h : (k, v) ∈ es) :
    valueAt k es = some v := by
  induction es with
  | nil => cases h
  | cons e es ih =>
    rw [List.map_cons, List.nodup_cons] at hes
    rcases List.mem_cons.mp h with rfl | h
    · simp [valueAt]
    · have hne : e.1 ≠ k := by
        rintro rfl
        exact hes.1 (List.mem_map_of_mem (f := (·.1)) h)
      rw [valueAt, if_neg hne, ih hes.2 h]

/-- Of entries with different keys every one counts. -/
lemma get?_ofList_of_nodup (hes : (es.map (·.1)).Nodup) (k : SymbolId) :
    (ofList es).get? k = valueAt k es := by
  rw [get?_ofList]
  cases h : valueAt k es with
  | none =>
    rw [valueAt_eq_none_iff] at h ⊢
    rwa [List.map_reverse, List.mem_reverse]
  | some v =>
    refine valueAt_of_mem_of_nodup ?_ (List.mem_reverse.mpr (mem_of_valueAt h))
    rw [List.map_reverse]
    exact (List.reverse_perm _).nodup_iff.mpr hes

/-- A map is the map of its entries. -/
@[simp] lemma ofList_entries (m : IdMap α) : ofList m.entries = m := by
  apply ext_get?
  intro k
  rw [get?_ofList_of_nodup m.keys_nodup]
  rfl

end LinkSummary.IdMap
