import LinkSummary.Proofs.Store.Inheritance
import LinkSummary.Proofs.Store.TableLengths
import LinkSummary.Store.Json

/-!
# Stores whose tables settle

In a store read from outside a type may be filed under another id than its own. What it lacks of its
base's slots is then added under the id it has, to another table or to none, and the rounds may go
on for ever. They end exactly if each with a short table adds slots, and there are never more slots
than in tables all as long as the longest; if they end, the bounded loop runs through all of them.
Where the derived types are filed under their own ids, the rounds end whatever the tables hold, and
where one is not, there are tables with which they do not end.
-/

namespace LinkSummary

/-- A sum over the values of a map is one over its keys. -/
lemma IdMap.sum_map_values {α : Type} (m : IdMap α) (f : α → ℕ) :
    (m.values.map f).sum = ∑ k ∈ m.keys.toFinset, (m.get? k).elim 0 f := by
  rw [List.sum_toFinset _ m.keys_nodup, IdMap.values, IdMap.keys, List.map_map, List.map_map]
  congr 1
  apply List.map_congr_left
  intro e he
  rw [Function.comp_apply, Function.comp_apply, IdMap.mem_entries_iff.mp he, Option.elim_some]

namespace Store

variable {s s' : Store} {t : TypeSummary} {id base : SymbolId} {n : ℕ} {acc r : Store × Extensions}

/-! ### Tables under their keys -/

/-- The length of the table under an id. -/
def tableLength (s : Store) (id : SymbolId) : Nat := (s.type? id).elim 0 (·.slots.length)

/-- The base of the type under an id, if the store has it. -/
def recordedBase? (s : Store) (id : SymbolId) : Option SymbolId :=
  ((s.type? id).bind (·.base)).filter s.types.contains

/-- The id that the type under an id has itself. -/
def ownId (s : Store) (id : SymbolId) : SymbolId := (s.type? id).elim id (·.id)

lemma recordedBase?_eq_some_iff : s.recordedBase? id = some base ↔
    ∃ t u, s.type? id = some t ∧ t.base = some base ∧ s.type? base = some u := by
  simp only [recordedBase?, Option.filter_eq_some_iff, Option.bind_eq_some_iff, IdMap.contains_iff,
    type?]
  constructor
  · rintro ⟨⟨t, ht, hbase⟩, u, hu⟩
    exact ⟨t, u, ht, hbase, hu⟩
  · rintro ⟨t, u, ht, hbase, hu⟩
    exact ⟨⟨t, ht, hbase⟩, u, hu⟩

lemma tableLength_eq (h : s.type? id = some t) : s.tableLength id = t.slots.length := by
  rw [tableLength, h, Option.elim_some]

lemma length_missingSlots (h : s.type? id = some t) : (s.missingSlots t).length =
    (s.recordedBase? id).elim 0 fun base => s.tableLength base - s.tableLength id := by
  cases hrecorded : s.recordedBase? id with
  | some base =>
    obtain ⟨t', u, ht, hbase, hu⟩ := recordedBase?_eq_some_iff.mp hrecorded
    rw [h, Option.some.injEq] at ht
    subst ht
    have hbaseOf : s.baseOf? t = some u := Option.bind_eq_some_iff.mpr ⟨base, hbase, hu⟩
    rw [missingSlots, hbaseOf, Option.elim_some, tableLength_eq h, tableLength_eq hu,
      List.length_drop]
  | none =>
    have hbaseOf : s.baseOf? t = none := by
      rw [Option.eq_none_iff_forall_ne_some]
      intro u hu
      obtain ⟨base, hbase, hu⟩ := Option.bind_eq_some_iff.mp hu
      rw [recordedBase?_eq_some_iff.mpr ⟨t, u, h, hbase, hu⟩] at hrecorded
      cases hrecorded
    rw [missingSlots, hbaseOf]
    rfl

/-! ### What a round adds -/

/-- The slots that a round adds under an id, from all types with that id. -/
def slotsFor (s : Store) (id : SymbolId) : List SymbolId :=
  (s.shortTypes.filter (·.1 = id)).flatMap (·.2)

lemma get?_foldl_addSlots (shorts : List (SymbolId × List SymbolId)) (types : IdMap TypeSummary)
    (id : SymbolId) :
    (shorts.foldl (fun types x => types.modify x.1 (addSlots x.2)) types).get? id =
      (types.get? id).map (addSlots ((shorts.filter (·.1 = id)).flatMap (·.2))) := by
  induction shorts generalizing types with
  | nil => cases h : types.get? id <;> simp [h, addSlots]
  | cons short shorts ih =>
    rw [List.foldl_cons, ih, IdMap.get?_modify]
    by_cases hid : short.1 = id
    · cases types.get? id <;> simp [hid, addSlots]
    · simp [hid, Ne.symm hid]

/-- A round continues the table under an id with the slots of all short types that have that id. -/
lemma type?_inheritRound (acc : Store × Extensions) (id : SymbolId) :
    (inheritRound acc).1.type? id = (acc.1.type? id).map (addSlots (acc.1.slotsFor id)) := by
  rw [inheritRound, fst_foldl_extendSlots]
  exact get?_foldl_addSlots ..

lemma length_slotsFor (s : Store) (id : SymbolId) : (s.slotsFor id).length =
    (s.types.values.map fun t => if t.id = id then (s.missingSlots t).length else 0).sum := by
  rw [slotsFor, shortTypes]
  induction s.types.values with
  | nil => rfl
  | cons t ts ih =>
    rw [List.map_cons, List.map_cons, List.sum_cons, ← ih]
    by_cases hid : t.id = id
    · cases s.missingSlots t with
      | nil => simp [hid]
      | cons x xs => simp [hid, Nat.add_right_comm]
    · cases s.missingSlots t <;> simp [hid]

lemma length_slotsFor_eq_sum (s : Store) (id : SymbolId) : (s.slotsFor id).length =
    ∑ j ∈ s.types.keys.toFinset with s.ownId j = id,
      (s.recordedBase? j).elim 0 fun base => s.tableLength base - s.tableLength j := by
  rw [length_slotsFor, IdMap.sum_map_values, Finset.sum_filter]
  apply Finset.sum_congr rfl
  intro j hj
  obtain ⟨t, ht⟩ := IdMap.mem_keys_iff.mp (List.mem_toFinset.mp hj)
  rw [ht, Option.elim_some, ← length_missingSlots ht, ownId, type?, ht, Option.elim_some]

lemma tableLength_inheritRound (h : id ∈ acc.1.types.keys) :
    (inheritRound acc).1.tableLength id = acc.1.tableLength id + (acc.1.slotsFor id).length := by
  obtain ⟨t, ht⟩ := IdMap.mem_keys_iff.mp h
  have hround := type?_inheritRound acc id
  rw [type?, type?, ht, Option.map_some] at hround
  rw [tableLength_eq hround, tableLength_eq ht, addSlots, List.length_append]

/-! ### The shape of a store -/

/-- A type without its table. -/
def bare (t : TypeSummary) : TypeSummary := { t with slots := [] }

/-- The types are the same but for their tables. -/
def SameShape (s s' : Store) : Prop := s.types.map bare = s'.types.map bare

namespace SameShape

lemma map_type? (h : s.SameShape s') (id : SymbolId) :
    (s.type? id).map bare = (s'.type? id).map bare := by
  rw [type?, type?, ← IdMap.get?_map, h, IdMap.get?_map]

lemma contains_eq (h : s.SameShape s') (id : SymbolId) :
    s.types.contains id = s'.types.contains id := by
  have hsome := congrArg Option.isSome (h.map_type? id)
  rwa [Option.isSome_map, Option.isSome_map] at hsome

lemma keys_eq (h : s.SameShape s') : s.types.keys = s'.types.keys :=
  IdMap.keys_congr h.contains_eq

lemma recordedBase?_eq (h : s.SameShape s') : s.recordedBase? = s'.recordedBase? := by
  funext id
  have hbase : ∀ s : Store, (s.type? id).bind (·.base) = ((s.type? id).map bare).bind (·.base) := by
    intro s
    cases s.type? id <;> rfl
  rw [recordedBase?, recordedBase?, hbase, hbase, h.map_type?, funext h.contains_eq]

lemma ownId_eq (h : s.SameShape s') : s.ownId = s'.ownId := by
  funext id
  have hid : ∀ s : Store, s.ownId id = ((s.type? id).map bare).elim id (·.id) := by
    intro s
    rw [ownId]
    cases s.type? id <;> rfl
  rw [hid, hid, h.map_type?]

end SameShape

lemma sameShape_inheritRound (acc : Store × Extensions) :
    acc.1.SameShape (inheritRound acc).1 := by
  apply IdMap.ext_get?
  intro id
  have hround := type?_inheritRound acc id
  rw [type?, type?] at hround
  rw [IdMap.get?_map, IdMap.get?_map, hround, Option.map_map]
  rfl

/-! ### Round after round -/

/-- The store after some rounds. -/
def afterRounds (s : Store) (n : Nat) : Store := (inheritRound^[n] (s, [])).1

def slotCount (s : Store) : Nat := (s.types.values.map (·.slots.length)).sum

def longestTable (s : Store) : Nat := (s.types.values.map (·.slots.length)).foldl max 0

lemma afterRounds_succ (s : Store) (n : ℕ) :
    s.afterRounds (n + 1) = (inheritRound (inheritRound^[n] (s, []))).1 := by
  rw [afterRounds, Function.iterate_succ_apply']

lemma sameShape_afterRounds (s : Store) (n : ℕ) : s.SameShape (s.afterRounds n) := by
  induction n with
  | zero => rfl
  | succ n ih =>
    rw [afterRounds_succ]
    exact Eq.trans ih (sameShape_inheritRound _)

/-- The lengths of the tables of a store. -/
def tableLengths (s : Store) : TableLengths SymbolId where
  keys := s.types.keys.toFinset
  base := s.recordedBase?
  id := s.ownId
  length n := (s.afterRounds n).tableLength
  base_mem h := by
    obtain ⟨-, u, -, -, hu⟩ := recordedBase?_eq_some_iff.mp h
    exact List.mem_toFinset.mpr (IdMap.mem_keys_iff.mpr ⟨u, hu⟩)
  length_succ n k hk := by
    have hshape := s.sameShape_afterRounds n
    rw [List.mem_toFinset, hshape.keys_eq] at hk
    rw [hshape.keys_eq, hshape.recordedBase?_eq, hshape.ownId_eq, ← length_slotsFor_eq_sum,
      afterRounds_succ]
    exact tableLength_inheritRound hk

lemma missing_tableLengths (h : (s.afterRounds n).type? id = some t) :
    s.tableLengths.missing n id = ((s.afterRounds n).missingSlots t).length := by
  rw [length_missingSlots h, ← (s.sameShape_afterRounds n).recordedBase?_eq]
  rfl

lemma mem_keys_tableLengths_iff :
    id ∈ s.tableLengths.keys ↔ ∃ t, (s.afterRounds n).type? id = some t := by
  rw [tableLengths, List.mem_toFinset, (s.sameShape_afterRounds n).keys_eq]
  exact IdMap.mem_keys_iff

lemma settled_tableLengths_iff : s.tableLengths.Settled n ↔ (s.afterRounds n).shortTypes = [] := by
  rw [shortTypes_eq_nil_iff]
  constructor
  · intro h t ht
    obtain ⟨id, ht⟩ := IdMap.mem_values_iff.mp ht
    rw [← missingSlots_eq_nil_iff, ← List.length_eq_zero_iff, ← missing_tableLengths ht]
    exact h id (mem_keys_tableLengths_iff.mpr ⟨t, ht⟩)
  · intro h id hid
    obtain ⟨t, ht⟩ := mem_keys_tableLengths_iff.mp hid
    rw [missing_tableLengths ht, List.length_eq_zero_iff, missingSlots_eq_nil_iff]
    exact h t (IdMap.mem_values_iff.mpr ⟨id, ht⟩)

lemma total_tableLengths : s.tableLengths.total n = (s.afterRounds n).slotCount := by
  rw [slotCount, IdMap.sum_map_values, ← (s.sameShape_afterRounds n).keys_eq]
  rfl

lemma card_keys_tableLengths (s : Store) : s.tableLengths.keys.card = s.types.size := by
  rw [tableLengths, List.toFinset_card_of_nodup s.types.keys_nodup, IdMap.keys, List.length_map,
    IdMap.size]

lemma length_tableLengths_le (s : Store) :
    ∀ k ∈ s.tableLengths.keys, s.tableLengths.length 0 k ≤ s.longestTable := by
  intro k hk
  obtain ⟨t, ht⟩ : ∃ t, s.type? k = some t := mem_keys_tableLengths_iff (n := 0).mp hk
  refine le_foldl_max 0 (.inl (List.mem_map.mpr ⟨t, IdMap.mem_values_iff.mpr ⟨k, ht⟩, ?_⟩))
  exact (tableLength_eq ht).symm

/-! ### The end of the rounds -/

/-- The first rounds that leave no type short are so many. -/
def EndsAfter (acc : Store × Extensions) (n : Nat) : Prop :=
  (inheritRound^[n] acc).1.shortTypes = [] ∧ ∀ m < n, (inheritRound^[m] acc).1.shortTypes ≠ []

lemma endsAfter_zero : EndsAfter acc 0 ↔ acc.1.shortTypes = [] :=
  and_iff_left nofun

lemma endsAfter_succ :
    EndsAfter acc (n + 1) ↔ acc.1.shortTypes ≠ [] ∧ EndsAfter (inheritRound acc) n := by
  rw [EndsAfter, EndsAfter, Nat.forall_lt_succ_left]
  exact and_left_comm

lemma EndsAfter.unique {m : ℕ} (hm : EndsAfter acc m) (hn : EndsAfter acc n) : m = n := by
  rcases Nat.lt_trichotomy m n with hlt | heq | hlt
  · exact absurd hm.1 (hn.2 m hlt)
  · exact heq
  · exact absurd hn.1 (hm.2 n hlt)

/-- If the bound allows them, the rounds are those of the bounded loop. -/
lemma EndsAfter.inheritRounds_eq {fuel : ℕ} (h : EndsAfter acc n) (hn : n ≤ fuel) :
    inheritRounds fuel acc = inheritRound^[n] acc := by
  induction fuel generalizing acc n with
  | zero =>
    obtain rfl := Nat.le_zero.mp hn
    rfl
  | succ fuel ih =>
    rw [inheritRounds]
    cases n with
    | zero =>
      rw [if_pos (List.isEmpty_iff.mpr (endsAfter_zero.mp h))]
      rfl
    | succ n =>
      obtain ⟨hshort, hends⟩ := endsAfter_succ.mp h
      rw [if_neg (by rwa [List.isEmpty_iff]), ih hends (by omega)]
      rfl

/-- If the rounds end, the bound allows them. -/
lemma exists_endsAfter_le (h : s.tableLengths.Settled n) :
    ∃ n ≤ s.roundBound, EndsAfter (s, []) n := by
  obtain ⟨n, hn, hsettled, hbefore⟩ := TableLengths.exists_settled_le h s.length_tableLengths_le
  rw [card_keys_tableLengths] at hn
  refine ⟨n, hn.trans ?_, settled_tableLengths_iff.mp hsettled, fun m hm hshort =>
    hbefore m hm (settled_tableLengths_iff.mpr hshort)⟩
  exact Nat.mul_le_mul (Nat.le_add_right _ 1) (Nat.le_add_right s.longestTable 1)

/-- The bounded loop tells whether the rounds end, and where. -/
lemma inheritMissingSlots?_eq_some_iff : s.inheritMissingSlots? = some r ↔
    ∃ n, EndsAfter (s, []) n ∧ inheritRound^[n] (s, []) = r := by
  simp only [inheritMissingSlots?, Option.ite_none_right_eq_some, List.isEmpty_iff,
    Option.some.injEq]
  constructor
  · rintro ⟨hsettled, rfl⟩
    obtain ⟨n, -, heq, hbefore⟩ := exists_inheritRounds_eq_iterate s.roundBound (s, [])
    exact ⟨n, ⟨by rwa [← heq], hbefore⟩, heq.symm⟩
  · rintro ⟨n, hends, rfl⟩
    obtain ⟨m, hm, hfirst⟩ := exists_endsAfter_le (settled_tableLengths_iff.mpr hends.1)
    have heq := hends.inheritRounds_eq (hends.unique hfirst ▸ hm)
    rw [inheritMissingSlots, heq]
    exact ⟨hends.1, rfl⟩

/-- If types are filed under their own ids, the rounds end. -/
theorem TypesFiled.inheritMissingSlots?_eq (hs : s.TypesFiled) :
    s.inheritMissingSlots? = some s.inheritMissingSlots := by
  have hsettled := shortTypes_eq_nil_iff.mpr hs.slotsCoverBases_inheritMissingSlots
  exact if_pos (List.isEmpty_iff.mpr hsettled)

lemma exists_inheritMissingSlots?_iff :
    (∃ r, s.inheritMissingSlots? = some r) ↔ ∃ n, s.tableLengths.Settled n := by
  simp only [inheritMissingSlots?_eq_some_iff]
  constructor
  · rintro ⟨r, n, hends, -⟩
    exact ⟨n, settled_tableLengths_iff.mpr hends.1⟩
  · rintro ⟨n, hn⟩
    obtain ⟨n, -, hends⟩ := exists_endsAfter_le hn
    exact ⟨_, n, hends, rfl⟩

/-- Each round with a short table adds slots, and there are never more slots than in tables all as
long as the longest. -/
def Progresses (s : Store) : Prop :=
  ∀ n, ((s.afterRounds n).shortTypes = [] ∨
      (s.afterRounds n).slotCount < (s.afterRounds (n + 1)).slotCount) ∧
    (s.afterRounds n).slotCount ≤ s.types.size * s.longestTable

lemma progresses_iff : s.Progresses ↔ ∃ n, s.tableLengths.Settled n := by
  simp only [Progresses, ← settled_tableLengths_iff, ← total_tableLengths,
    ← card_keys_tableLengths]
  constructor
  · intro h
    exact TableLengths.exists_settled_of_growth (fun n => (h n).1) fun n => (h n).2
  · rintro ⟨N, hN⟩ n
    -- the rounds have ended not only after `N`, but also later
    have hlater := hN.mono (le_max_left N (n + 1))
    have hn : n < max N (n + 1) := lt_max_of_lt_right (Nat.lt_add_one n)
    refine ⟨?_, TableLengths.total_le fun k hk =>
      TableLengths.length_le_of_settled hlater s.length_tableLengths_le hn.le hk⟩
    by_cases hsettled : s.tableLengths.Settled n
    · exact .inl hsettled
    · exact .inr (TableLengths.total_lt_of_settled hlater hn hsettled)

/-! ### Types filed under their own ids -/

/-- Types with a base in the store, other than themselves, are filed under their own ids. -/
def DerivedTypesFiled (s : Store) : Prop :=
  ∀ id base, s.recordedBase? id = some base → base ≠ id → s.ownId id = id

lemma DerivedTypesFiled.exists_settled (hs : s.DerivedTypesFiled) :
    ∃ n, s.tableLengths.Settled n := by
  apply TableLengths.exists_settled_of_filed
  intro n id _ hmissing
  obtain ⟨base, hbase, hlonger⟩ := TableLengths.exists_base_of_missing hmissing
  refine hs id base hbase ?_
  rintro rfl
  omega

/-- The store with one slot in every table but that of one type, which has none. -/
def withoutSlotsAt (s : Store) (id : SymbolId) : Store :=
  { s with
    types := (s.types.map fun t => { t with slots := [id] }).modify id bare }

lemma type?_withoutSlotsAt (s : Store) (id k : SymbolId) : (s.withoutSlotsAt id).type? k =
    (s.type? k).map fun t => { t with slots := if k = id then [] else [id] } := by
  rw [type?, withoutSlotsAt, IdMap.get?_modify, IdMap.get?_map, type?]
  by_cases hk : k = id
  · rw [if_pos hk, if_pos hk, Option.map_map]
    rfl
  · rw [if_neg hk, if_neg hk]

lemma sameShape_withoutSlotsAt (s : Store) (id : SymbolId) : s.SameShape (s.withoutSlotsAt id) := by
  apply IdMap.ext_get?
  intro k
  have htype := s.type?_withoutSlotsAt id k
  rw [type?, type?] at htype
  rw [IdMap.get?_map, IdMap.get?_map, htype, Option.map_map]
  rfl

lemma tableLength_withoutSlotsAt {k : SymbolId} (hk : k ∈ s.types.keys) :
    (s.withoutSlotsAt id).tableLength k = if k = id then 0 else 1 := by
  obtain ⟨t, ht⟩ := IdMap.mem_keys_iff.mp hk
  rw [tableLength, type?_withoutSlotsAt, type?, ht]
  by_cases hid : k = id <;> simp [hid]

/-- If a derived type is filed under another id than its own, it may be that its table is empty and
all others have one slot. Then no table under the type's own id could take another slot. -/
lemma not_settled_withoutSlotsAt (hbase : s.recordedBase? id = some base) (hne : base ≠ id)
    (hid : s.ownId id ≠ id) : ¬ (s.withoutSlotsAt id).tableLengths.Settled n := by
  let T := (s.withoutSlotsAt id).tableLengths
  have hshape := s.sameShape_withoutSlotsAt id
  have hlength : ∀ k ∈ T.keys, T.length 0 k = if k = id then 0 else 1 := by
    intro k hk
    exact tableLength_withoutSlotsAt (hshape.keys_eq ▸ List.mem_toFinset.mp hk)
  have hlongest : ∀ k ∈ T.keys, T.length 0 k ≤ 1 := by
    intro k hk
    rw [hlength k hk]
    split <;> omega
  have hbase' : T.base id = some base :=
    (congrFun hshape.recordedBase?_eq id).symm.trans hbase
  have hself : id ∈ T.keys := by
    obtain ⟨t, -, ht, -, -⟩ := recordedBase?_eq_some_iff.mp hbase'
    exact mem_keys_tableLengths_iff (n := 0).mpr ⟨t, ht⟩
  have hmissing : T.missing 0 id = 1 := by
    rw [TableLengths.missing_eq hbase', hlength id hself, hlength base (T.base_mem hbase'),
      if_pos rfl, if_neg hne]
  intro hsettled
  obtain ⟨hkey, hroom⟩ := TableLengths.length_id_add_missing_le hsettled hlongest hself
    (by rw [hmissing]; exact Nat.one_pos)
  have hother : T.id id ≠ id := fun heq =>
    hid ((congrFun hshape.ownId_eq id).trans heq)
  rw [hlength _ hkey, if_neg hother, hmissing] at hroom
  omega

/-- The rounds by which missing slots are inherited end exactly if each with a short table adds
slots, below a bound that the store sets at the outset, and the bounded loop tells whether they end
and what comes of them. They end whatever the tables hold exactly if every type with a base in the
store, other than itself, is filed under its own id. -/
theorem inheritance_ends_iff (s : Store) :
    (∀ r, s.inheritMissingSlots? = some r ↔ ∃ n, EndsAfter (s, []) n ∧
      inheritRound^[n] (s, []) = r) ∧
    ((∃ r, s.inheritMissingSlots? = some r) ↔ s.Progresses) ∧
    ((∀ s', s.SameShape s' → ∃ r, s'.inheritMissingSlots? = some r) ↔ s.DerivedTypesFiled) := by
  refine ⟨fun r => inheritMissingSlots?_eq_some_iff,
    exists_inheritMissingSlots?_iff.trans progresses_iff.symm, ?_⟩
  simp only [exists_inheritMissingSlots?_iff]
  constructor
  · intro h id base hbase hne
    by_contra hid
    obtain ⟨n, hsettled⟩ := h _ (s.sameShape_withoutSlotsAt id)
    exact not_settled_withoutSlotsAt hbase hne hid hsettled
  · intro h s' hshape
    apply DerivedTypesFiled.exists_settled
    rwa [DerivedTypesFiled, ← hshape.recordedBase?_eq, ← hshape.ownId_eq]

/-- In a store read from outside a type can be filed under an id that is not its own, and its own id
may not be defined. Such a type lacks a slot for ever, and no round adds one. -/
theorem exists_text_of_endless_inheritance : ∃ text s, ofJsonText? text = some s ∧
    ∀ n, (s.afterRounds n).shortTypes ≠ [] ∧
      (s.afterRounds (n + 1)).slotCount = (s.afterRounds n).slotCount := by
  let s : Store :=
    { moduleName := "m"
      types := .ofList
        [(⟨1⟩, { id := ⟨1⟩, slots := [⟨3⟩] }), (⟨2⟩, { id := ⟨3⟩, base := some ⟨1⟩ })]
      symbols := .ofList ["B", "C", "f"] }
  let text : String :=
    "\x7b\"module_name\":\"m\",\"liveness_computed\":false,\"functions\":\x7b\x7d," ++
    "\"types\":\x7b\"1\":\x7b\"id\":1,\"vtable_slots\":[3],\"witness_entries\":\x7b\x7d\x7d," ++
    "\"2\":\x7b\"id\":3,\"base\":1,\"vtable_slots\":[],\"witness_entries\":\x7b\x7d\x7d\x7d," ++
    "\"symbols\":[\"B\",\"C\",\"f\"]\x7d"
  refine ⟨text, s, by decide +kernel, ?_⟩
  have hround : inheritRound (s, []) = (s, []) := by decide +kernel
  have hrounds : ∀ n, s.afterRounds n = s := fun n =>
    congrArg Prod.fst (Function.iterate_fixed hround n)
  intro n
  rw [hrounds, hrounds]
  exact ⟨by decide +kernel, rfl⟩

end Store

end LinkSummary
