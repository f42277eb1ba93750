import LinkSummary.Dispatch
import LinkSummary.Proofs.Store.WellFormed
import Mathlib.Logic.Relation

/-!
# What a call may reach

The targets of a call are described by the types of the store alone: a direct call reaches its
callee, a virtual call also what the subtypes of a type hold in the slot in which that type holds
the callee, and a witness call what a type holds for the requirement. The search through the
reverse indexes finds exactly these.
-/

namespace LinkSummary

@[simp] lemma mem_sortedIds {id : SymbolId} {ids : List SymbolId} :
    id ∈ sortedIds ids ↔ id ∈ ids := by
  simp [sortedIds, IdMap.mem_keys_ofList]

lemma sortedIds_pairwise (ids : List SymbolId) : (sortedIds ids).Pairwise (· < ·) :=
  IdMap.keys_pairwise _

lemma nodup_sortedIds (ids : List SymbolId) : (sortedIds ids).Nodup :=
  IdMap.nodup_of_pairwise_lt (sortedIds_pairwise ids)

namespace Store

variable {s : Store} {kind : CallKind} {callee target : SymbolId}

/-! ### Dispatch over the types of a store -/

def DerivesFrom (s : Store) (sub base : SymbolId) : Prop :=
  ∃ t, s.type? sub = some t ∧ t.base = some base

/-- A type leads to another over one or more bases. -/
def SubtypeOf (s : Store) : SymbolId → SymbolId → Prop :=
  Relation.TransGen s.DerivesFrom

/-- A type holds an implementation in a vtable slot. -/
def HoldsSlot (s : Store) (type : SymbolId) (slot : Nat) (implementation : SymbolId) : Prop :=
  ∃ t, s.type? type = some t ∧ t.slots[slot]? = some implementation

/-- A type holds an implementation of a requirement. -/
def HoldsWitness (s : Store) (type requirement implementation : SymbolId) : Prop :=
  ∃ t, s.type? type = some t ∧ t.witnesses.get? requirement = some implementation

/-- What a call of a kind may reach, given the symbol that it names. -/
inductive Dispatches (s : Store) (callee : SymbolId) : CallKind → SymbolId → Prop
  | direct : Dispatches s callee .direct callee
  | named : Dispatches s callee .virtual callee
  | override {type sub : SymbolId} {slot : Nat} {implementation : SymbolId} :
    s.HoldsSlot type slot callee → s.SubtypeOf sub type → s.HoldsSlot sub slot implementation →
      Dispatches s callee .virtual implementation
  | conformance {type implementation : SymbolId} :
    s.HoldsWitness type callee implementation → Dispatches s callee .witness implementation

/-- Some table of a store has an entry for a call of a kind, if the kind needs one. -/
def HasEntry (s : Store) (callee : SymbolId) : CallKind → Prop
  | .direct => True
  | .virtual => ∃ type slot, s.HoldsSlot type slot callee
  | .witness => ∃ type implementation, s.HoldsWitness type callee implementation

lemma HoldsSlot.unique {type a b : SymbolId} {slot : Nat} (ha : s.HoldsSlot type slot a)
    (hb : s.HoldsSlot type slot b) : a = b := by
  obtain ⟨t, ht, ha⟩ := ha
  obtain ⟨t', ht', hb⟩ := hb
  rw [ht, Option.some.injEq] at ht'
  rw [← ht', ha, Option.some.injEq] at hb
  exact hb

/-- Only proper subtypes need a look for overrides: in a cycle of bases a type is its own subtype,
and holds the callee itself in the slot. -/
lemma dispatches_virtual_iff : s.Dispatches callee .virtual target ↔ target = callee ∨
    ∃ type slot sub, s.HoldsSlot type slot callee ∧ sub ≠ type ∧ s.SubtypeOf sub type ∧
      s.HoldsSlot sub slot target := by
  constructor
  · intro h
    cases h with
    | named => exact .inl rfl
    | @override type sub slot _ hcallee hsub hslot =>
      by_cases heq : sub = type
      · subst heq
        exact .inl (hslot.unique hcallee)
      · exact .inr ⟨type, slot, sub, hcallee, heq, hsub, hslot⟩
  · rintro (rfl | ⟨type, slot, sub, hcallee, -, hsub, hslot⟩)
    · exact .named
    · exact .override hcallee hsub hslot

end Store

namespace DispatchIndex

variable {x : DispatchIndex} {s : Store} {type sub id : SymbolId}

/-! ### Subtypes -/

lemma mem_under {α : Type} {pairs : List (SymbolId × α)} {a : α} :
    a ∈ under pairs id ↔ (id, a) ∈ pairs := by
  simp only [under, List.mem_filterMap, Prod.exists, Option.ite_none_right_eq_some,
    Option.some.injEq]
  constructor
  · rintro ⟨_, _, hmem, rfl, rfl⟩
    exact hmem
  · exact fun hmem => ⟨id, a, hmem, rfl, rfl⟩

/-- Coming to some types adds those that were not seen before, to what is to be followed as well. -/
lemma exists_foldl_visit_eq (types : List SymbolId) (search : Search) :
    ∃ fresh, types.foldl Search.visit search =
        ⟨search.seen ++ fresh, fresh.reverse ++ search.stack⟩ ∧
      ∀ a, a ∈ fresh ↔ a ∈ types ∧ a ∉ search.seen := by
  induction types generalizing search with
  | nil => exact ⟨[], by simp, by simp⟩
  | cons type types ih =>
    obtain ⟨fresh, heq, hfresh⟩ := ih (search.visit type)
    rw [List.foldl_cons, heq]
    by_cases hseen : type ∈ search.seen
    · rw [Search.visit, if_pos hseen] at hfresh ⊢
      refine ⟨fresh, rfl, fun a => ?_⟩
      rw [hfresh, List.mem_cons]
      constructor
      · exact fun h => ⟨.inr h.1, h.2⟩
      · rintro ⟨rfl | ha, hnot⟩
        · exact absurd hseen hnot
        · exact ⟨ha, hnot⟩
    · rw [Search.visit, if_neg hseen] at hfresh ⊢
      refine ⟨type :: fresh, by simp, fun a => ?_⟩
      simp only [List.mem_cons, hfresh, List.mem_append, List.not_mem_nil, or_false, not_or]
      constructor
      · rintro (rfl | ⟨ha, hnot, -⟩)
        · exact ⟨.inl rfl, hseen⟩
        · exact ⟨.inr ha, hnot⟩
      · rintro ⟨ha, hnot⟩
        by_cases heq : a = type
        · exact .inl heq
        · exact .inr ⟨ha.resolve_left heq, hnot, heq⟩

/-- What holds all through a search from a type: the types seen begin with that type, derivation
leads from it to each of them, and what is derived from those not on the stack has been seen. -/
structure Searches (x : DispatchIndex) (root : SymbolId) (search : Search) : Prop where
  seen_eq : ∃ found, search.seen = root :: found ∧ root ∉ found
  stack_seen : ∀ a ∈ search.stack, a ∈ search.seen
  reached : ∀ a ∈ search.seen, Relation.ReflTransGen (fun a b => (a, b) ∈ x.derived) root a
  followed : ∀ a ∈ search.seen, a ∉ search.stack → ∀ b, (a, b) ∈ x.derived → b ∈ search.seen

namespace Searches

variable {root : SymbolId} {search : Search}

lemma start (x : DispatchIndex) (root : SymbolId) : x.Searches root ⟨[root], [root]⟩ where
  seen_eq := ⟨[], rfl, List.not_mem_nil⟩
  stack_seen _ ha := ha
  reached a ha := by rw [List.mem_singleton.mp ha]
  followed _ ha hnot := absurd ha hnot

lemma follow {seen stack : List SymbolId} (h : x.Searches root ⟨seen, type :: stack⟩) :
    x.Searches root ((x.derivedFrom type).foldl Search.visit ⟨seen, stack⟩) := by
  obtain ⟨fresh, heq, hfresh⟩ := exists_foldl_visit_eq (x.derivedFrom type) ⟨seen, stack⟩
  simp only [mem_derivedFrom] at hfresh
  obtain ⟨⟨found, hfound, hroot⟩, hstack, hreached, hfollowed⟩ := h
  dsimp only at hfound hreached hfollowed
  have htype : type ∈ seen := hstack type List.mem_cons_self
  rw [heq]
  refine ⟨⟨found ++ fresh, ?_, ?_⟩, ?_, ?_, ?_⟩
  · rw [hfound, List.cons_append]
  · rw [List.mem_append, not_or]
    refine ⟨hroot, fun hmem => ((hfresh root).mp hmem).2 ?_⟩
    exact hfound ▸ List.mem_cons_self
  · intro a ha
    rcases List.mem_append.mp ha with ha | ha
    · exact List.mem_append_right _ (List.mem_reverse.mp ha)
    · exact List.mem_append_left _ (hstack a (List.mem_cons_of_mem _ ha))
  · intro a ha
    rcases List.mem_append.mp ha with ha | ha
    · exact hreached a ha
    · exact (hreached type htype).tail ((hfresh a).mp ha).1
  · intro a ha hnot b hb
    rw [List.mem_append, List.mem_reverse, not_or] at hnot
    have hseen : a ∈ seen := (List.mem_append.mp ha).resolve_right hnot.1
    by_cases hbseen : b ∈ seen
    · exact List.mem_append_left _ hbseen
    · -- what is derived from an old type off the stack is old, so the type is the one followed
      by_cases ha : a = type
      · exact List.mem_append_right _ ((hfresh b).mpr ⟨ha ▸ hb, hbseen⟩)
      · have hoff : a ∉ type :: stack := by
          rw [List.mem_cons, not_or]
          exact ⟨ha, hnot.2⟩
        exact absurd (hfollowed a hseen hoff b hb) hbseen

lemma descend (h : x.Searches root search) : x.Searches root ⟨x.descend search, []⟩ := by
  fun_induction DispatchIndex.descend x search with
  | case1 seen => exact h
  | case2 seen type stack ih => exact ih h.follow

end Searches

/-- The subtypes of a type are all that derivation leads to, but for the type itself. -/
theorem mem_subtypesOf : sub ∈ x.subtypesOf type ↔
    sub ≠ type ∧ Relation.ReflTransGen (fun a b => (a, b) ∈ x.derived) type sub := by
  obtain ⟨⟨found, hseen, htype⟩, -, hreached, hfollowed⟩ := (Searches.start x type).descend
  dsimp only at hseen hreached hfollowed
  have hclosed : ∀ a ∈ type :: found, ∀ b, (a, b) ∈ x.derived → b ∈ type :: found := by
    intro a ha
    rw [← hseen] at ha ⊢
    exact hfollowed a ha List.not_mem_nil
  rw [subtypesOf, mem_sortedIds, hseen, List.tail_cons]
  constructor
  · intro hsub
    refine ⟨ne_of_mem_of_not_mem hsub htype, hreached sub ?_⟩
    rw [hseen]
    exact List.mem_cons_of_mem _ hsub
  · rintro ⟨hne, hreach⟩
    have hmem : sub ∈ type :: found := by
      clear hne
      induction hreach with
      | refl => exact List.mem_cons_self
      | tail _ hab ih => exact hclosed _ ih _ hab
    exact (List.mem_cons.mp hmem).resolve_left hne

/-! ### The index of a store with its types under their own ids -/

lemma mem_derived_ofStore (hs : s.TypesFiled) {base : SymbolId} :
    (base, sub) ∈ (ofStore s).derived ↔ s.DerivesFrom sub base := by
  simp only [ofStore, List.mem_filterMap, IdMap.mem_values_iff, Option.map_eq_some_iff,
    Prod.mk.injEq]
  constructor
  · rintro ⟨t, ⟨key, ht⟩, base', hbase, rfl, rfl⟩
    exact ⟨t, hs _ t ht ▸ ht, hbase⟩
  · rintro ⟨t, ht, hbase⟩
    exact ⟨t, ⟨sub, ht⟩, base, hbase, rfl, hs _ t ht⟩

lemma mem_slotOwners_ofStore (hs : s.TypesFiled) {owner : SlotOwner} :
    owner ∈ (ofStore s).slotOwners id ↔ s.HoldsSlot owner.type owner.slot id := by
  simp only [slotOwners, mem_under, ofStore, List.mem_flatMap, IdMap.mem_values_iff, List.mem_map,
    Prod.exists, Prod.mk.injEq, List.mem_zipIdx_iff_getElem?]
  constructor
  · rintro ⟨t, ⟨key, ht⟩, implementation, slot, hslot, rfl, rfl⟩
    exact ⟨t, hs _ t ht ▸ ht, hslot⟩
  · rintro ⟨t, ht, hslot⟩
    refine ⟨t, ⟨owner.type, ht⟩, id, owner.slot, hslot, rfl, ?_⟩
    rw [hs _ t ht]

lemma mem_witnessImplementations_ofStore {requirement implementation : SymbolId} :
    implementation ∈ (ofStore s).witnessImplementations requirement ↔
      ∃ type, s.HoldsWitness type requirement implementation := by
  simp only [witnessImplementations, mem_under, ofStore, List.mem_flatMap, IdMap.mem_values_iff,
    IdMap.mem_entries_iff]
  constructor
  · rintro ⟨t, ⟨type, ht⟩, hwitness⟩
    exact ⟨type, t, ht, hwitness⟩
  · rintro ⟨type, t, ht, hwitness⟩
    exact ⟨t, ⟨type, ht⟩, hwitness⟩

lemma mem_subtypesOf_ofStore (hs : s.TypesFiled) :
    sub ∈ (ofStore s).subtypesOf type ↔ sub ≠ type ∧ s.SubtypeOf sub type := by
  have hrel : (fun a b => (a, b) ∈ (ofStore s).derived) = Function.swap s.DerivesFrom := by
    funext base derived
    exact propext (mem_derived_ofStore hs)
  rw [mem_subtypesOf, hrel, Relation.reflTransGen_swap, Relation.reflTransGen_iff_eq_or_transGen]
  constructor
  · rintro ⟨hne, heq | hsub⟩
    · exact absurd heq.symm hne
    · exact ⟨hne, hsub⟩
  · exact fun ⟨hne, hsub⟩ => ⟨hne, .inr hsub⟩

lemma mem_overrides {owner : SlotOwner} :
    id ∈ x.overrides s owner ↔ ∃ sub ∈ x.subtypesOf owner.type, s.HoldsSlot sub owner.slot id := by
  simp only [overrides, List.mem_filterMap, Store.HoldsSlot]
  refine exists_congr fun sub => and_congr_right fun _ => ?_
  exact Option.bind_eq_some_iff

/-- The targets of a call are what the types of the store make it reach. -/
theorem mem_targets_ofStore (hs : s.TypesFiled) {kind : CallKind} {callee target : SymbolId} :
    target ∈ ((ofStore s).targets s kind callee).implementations ↔
      s.Dispatches callee kind target := by
  cases kind with
  | direct =>
    rw [targets, List.mem_singleton]
    constructor
    · rintro rfl
      exact .direct
    · rintro ⟨⟩
      rfl
  | virtual =>
    rw [targets, mem_sortedIds, List.mem_cons, List.mem_flatMap, Store.dispatches_virtual_iff]
    refine or_congr_right ?_
    constructor
    · rintro ⟨owner, howner, htarget⟩
      obtain ⟨sub, hsub, hslot⟩ := mem_overrides.mp htarget
      obtain ⟨hne, hsub⟩ := (mem_subtypesOf_ofStore hs).mp hsub
      exact ⟨owner.type, owner.slot, sub, (mem_slotOwners_ofStore hs).mp howner, hne, hsub, hslot⟩
    · rintro ⟨type, slot, sub, hcallee, hne, hsub, hslot⟩
      exact ⟨⟨type, slot⟩, (mem_slotOwners_ofStore hs).mpr hcallee,
        mem_overrides.mpr ⟨sub, (mem_subtypesOf_ofStore hs).mpr ⟨hne, hsub⟩, hslot⟩⟩
  | witness =>
    rw [targets, mem_sortedIds, mem_witnessImplementations_ofStore]
    constructor
    · rintro ⟨type, h⟩
      exact .conformance h
    · rintro (_ | _ | _ | h)
      exact ⟨_, h⟩

/-- A call is resolved if the tables have an entry for it. -/
lemma resolved_targets_eq_true_iff (hs : s.TypesFiled) (s' : Store) {kind : CallKind}
    {callee : SymbolId} :
    ((ofStore s).targets s' kind callee).resolved = true ↔ s.HasEntry callee kind := by
  cases kind with
  | direct => exact iff_of_true rfl trivial
  | virtual =>
    rw [targets, Bool.not_eq_true', List.isEmpty_eq_false_iff_exists_mem]
    constructor
    · rintro ⟨owner, howner⟩
      exact ⟨owner.type, owner.slot, (mem_slotOwners_ofStore hs).mp howner⟩
    · rintro ⟨type, slot, hslot⟩
      exact ⟨⟨type, slot⟩, (mem_slotOwners_ofStore hs).mpr hslot⟩
  | witness =>
    rw [targets, Bool.not_eq_true', List.isEmpty_eq_false_iff_exists_mem]
    simp only [mem_witnessImplementations_ofStore]
    exact exists_comm

/-- The targets of a call are strictly increasing. -/
lemma targets_pairwise (x : DispatchIndex) (s : Store) (kind : CallKind) (callee : SymbolId) :
    (x.targets s kind callee).implementations.Pairwise (· < ·) := by
  cases kind with
  | direct => exact List.pairwise_singleton _ _
  | virtual => exact sortedIds_pairwise _
  | witness => exact sortedIds_pairwise _

/-- The targets depend on the types of the store only. -/
lemma targets_congr {s' : Store} (h : s'.types = s.types) (kind : CallKind) (callee : SymbolId) :
    x.targets s' kind callee = x.targets s kind callee := by
  have htype : s'.type? = s.type? := by
    funext id
    rw [Store.type?, Store.type?, h]
  have hoverrides : x.overrides s' = x.overrides s := by
    funext owner
    rw [overrides, overrides, htype]
  cases kind <;> simp only [targets, hoverrides]

end DispatchIndex

end LinkSummary
