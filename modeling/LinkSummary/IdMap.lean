import LinkSummary.Symbol.Id

/-!
# Finite maps keyed by symbol ids

The entries of a map are listed in strictly increasing order of their keys, so two maps with the
same entries are equal, and walking a map visits its keys in id order.
-/

namespace LinkSummary

/-- A finite map from symbol ids, listed in id order. -/
structure IdMap (α : Type) where
  entries : List (SymbolId × α)
  sorted : entries.Pairwise (·.1 < ·.1)
deriving DecidableEq

namespace IdMap

variable {α : Type}

def empty : IdMap α := ⟨[], .nil⟩

instance : EmptyCollection (IdMap α) := ⟨empty⟩

instance : Inhabited (IdMap α) := ⟨empty⟩

/-- The first value under a key in a list of entries. -/
def valueAt (k : SymbolId) : List (SymbolId × α) → Option α
  | [] => none
  | e :: es => if e.1 = k then some e.2 else valueAt k es

def get? (m : IdMap α) (k : SymbolId) : Option α := valueAt k m.entries

def contains (m : IdMap α) (k : SymbolId) : Bool := (m.get? k).isSome

def keys (m : IdMap α) : List SymbolId := m.entries.map (·.1)

def values (m : IdMap α) : List α := m.entries.map (·.2)

def size (m : IdMap α) : Nat := m.entries.length

/-! ### Insertion -/

/-- Put an entry at its place in an ordered list, over an entry with the same key. -/
def insertEntry (k : SymbolId) (v : α) : List (SymbolId × α) → List (SymbolId × α)
  | [] => [(k, v)]
  | e :: es =>
    if k < e.1 then (k, v) :: e :: es
    else if k = e.1 then (k, v) :: es
    else e :: insertEntry k v es

theorem mem_insertEntry {k : SymbolId} {v : α} {es : List (SymbolId × α)} {x : SymbolId × α}
    (h : x ∈ insertEntry k v es) : x = (k, v) ∨ x ∈ es := by
  induction es with
  | nil => simpa [insertEntry] using h
  | cons e es ih =>
    simp only [insertEntry] at h
    split at h
    · simpa using h
    · split at h
      · rcases List.mem_cons.1 h with h | h <;> simp [h]
      · rcases List.mem_cons.1 h with h | h
        · simp [h]
        · rcases ih h with h | h <;> simp [h]

theorem pairwise_insertEntry {k : SymbolId} {v : α} {es : List (SymbolId × α)}
    (h : es.Pairwise (·.1 < ·.1)) : (insertEntry k v es).Pairwise (·.1 < ·.1) := by
  induction es with
  | nil => simp [insertEntry]
  | cons e es ih =>
    obtain ⟨hhead, htail⟩ := List.pairwise_cons.1 h
    simp only [insertEntry]
    split
    · rename_i hlt
      refine List.pairwise_cons.2 ⟨fun x hx => ?_, h⟩
      rcases List.mem_cons.1 hx with rfl | hx
      · exact hlt
      · exact SymbolId.lt_trans hlt (hhead x hx)
    · split
      · rename_i heq
        exact List.pairwise_cons.2 ⟨fun x hx => heq ▸ hhead x hx, htail⟩
      · rename_i hlt hne
        refine List.pairwise_cons.2 ⟨fun x hx => ?_, ih htail⟩
        rcases mem_insertEntry hx with rfl | hx
        · exact SymbolId.lt_of_not_lt_of_ne hlt hne
        · exact hhead x hx

/-- The map with a value put under a key, in place of the one it had there. -/
def insert (m : IdMap α) (k : SymbolId) (v : α) : IdMap α :=
  ⟨insertEntry k v m.entries, pairwise_insertEntry m.sorted⟩

/-- The map of a list of entries; of two entries with one key the later counts. -/
def ofList (es : List (SymbolId × α)) : IdMap α :=
  es.foldl (fun m e => m.insert e.1 e.2) empty

/-! ### Change in place -/

def modifyEntry (k : SymbolId) (f : α → α) : List (SymbolId × α) → List (SymbolId × α)
  | [] => []
  | e :: es => if e.1 = k then (e.1, f e.2) :: es else e :: modifyEntry k f es

theorem map_fst_modifyEntry (k : SymbolId) (f : α → α) (es : List (SymbolId × α)) :
    (modifyEntry k f es).map (·.1) = es.map (·.1) := by
  induction es with
  | nil => rfl
  | cons e es ih =>
    simp only [modifyEntry]
    split <;> simp [ih]

theorem pairwise_iff_keys {es : List (SymbolId × α)} :
    es.Pairwise (·.1 < ·.1) ↔ (es.map (·.1)).Pairwise (· < ·) :=
  List.pairwise_map.symm

/-- The map with the value under a key changed; a key without value stays without. -/
def modify (m : IdMap α) (k : SymbolId) (f : α → α) : IdMap α :=
  ⟨modifyEntry k f m.entries, by
    rw [pairwise_iff_keys, map_fst_modifyEntry, ← pairwise_iff_keys]
    exact m.sorted⟩

def map {β : Type} (f : α → β) (m : IdMap α) : IdMap β :=
  ⟨m.entries.map fun e => (e.1, f e.2), by
    rw [List.pairwise_map]
    exact m.sorted⟩

/-! ### What the operations do to look-ups -/

theorem valueAt_insertEntry (k k' : SymbolId) (v : α) (es : List (SymbolId × α)) :
    valueAt k' (insertEntry k v es) = if k' = k then some v else valueAt k' es := by
  induction es with
  | nil => simp [insertEntry, valueAt, eq_comm]
  | cons e es ih =>
    simp only [insertEntry]
    split
    · simp [valueAt, eq_comm]
    · split <;> grind [valueAt]

@[simp] theorem get?_empty (k : SymbolId) : (empty : IdMap α).get? k = none := rfl

@[simp] theorem get?_insert (m : IdMap α) (k k' : SymbolId) (v : α) :
    (m.insert k v).get? k' = if k' = k then some v else m.get? k' :=
  valueAt_insertEntry k k' v m.entries

theorem valueAt_modifyEntry (k k' : SymbolId) (f : α → α) (es : List (SymbolId × α)) :
    valueAt k' (modifyEntry k f es) =
      if k' = k then (valueAt k' es).map f else valueAt k' es := by
  induction es with
  | nil => simp [modifyEntry, valueAt]
  | cons e es ih =>
    simp only [modifyEntry]
    split <;> grind [valueAt]

@[simp] theorem get?_modify (m : IdMap α) (k k' : SymbolId) (f : α → α) :
    (m.modify k f).get? k' = if k' = k then (m.get? k').map f else m.get? k' :=
  valueAt_modifyEntry k k' f m.entries

@[simp] theorem keys_modify (m : IdMap α) (k : SymbolId) (f : α → α) :
    (m.modify k f).keys = m.keys :=
  map_fst_modifyEntry k f m.entries

theorem valueAt_map {β : Type} (f : α → β) (k : SymbolId) (es : List (SymbolId × α)) :
    valueAt k (es.map fun e => (e.1, f e.2)) = (valueAt k es).map f := by
  induction es with
  | nil => rfl
  | cons e es ih => grind [valueAt]

@[simp] theorem get?_map {β : Type} (f : α → β) (m : IdMap α) (k : SymbolId) :
    (m.map f).get? k = (m.get? k).map f :=
  valueAt_map f k m.entries

theorem mem_of_valueAt {k : SymbolId} {v : α} {es : List (SymbolId × α)}
    (h : valueAt k es = some v) : (k, v) ∈ es := by
  induction es with
  | nil => simp [valueAt] at h
  | cons e es ih =>
    simp only [valueAt] at h
    split at h
    · rename_i hk
      cases h
      simp [← hk]
    · exact List.mem_cons_of_mem _ (ih h)

theorem valueAt_of_mem {k : SymbolId} {v : α} {es : List (SymbolId × α)}
    (hs : es.Pairwise (·.1 < ·.1)) (h : (k, v) ∈ es) : valueAt k es = some v := by
  induction es with
  | nil => cases h
  | cons e es ih =>
    obtain ⟨hhead, htail⟩ := List.pairwise_cons.1 hs
    rcases List.mem_cons.1 h with rfl | h
    · simp [valueAt]
    · have := SymbolId.ne_of_lt (hhead _ h)
      simp [valueAt, this, ih htail h]

/-- An entry is listed exactly when its key leads to its value. -/
theorem mem_entries_iff {m : IdMap α} {k : SymbolId} {v : α} :
    (k, v) ∈ m.entries ↔ m.get? k = some v :=
  ⟨valueAt_of_mem m.sorted, mem_of_valueAt⟩

end IdMap

end LinkSummary
