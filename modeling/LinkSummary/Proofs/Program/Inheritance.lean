import LinkSummary.Proofs.Store.Named

/-!
# Inherited slots

What a type holds in a slot once its table is continued by those of its bases is told by a relation
on the program as it was before: the entry of the nearest type on the way up whose own table reaches
the slot. A round keeps this relation, and when no table is short any more the tables hold exactly
what it says. So the outcome depends neither on the ids nor on the number of rounds.
-/

namespace LinkSummary

namespace Program

variable {κ : Type} {p q r : Program κ} {k b x y : κ} {i : Nat} {t u : Tables κ}

/-! ### Nearest entries -/

/-- A type holds an entry in a slot, or else its base holds or inherits one there. -/
inductive Inherits (p : Program κ) : κ → Nat → κ → Prop
  | own {k : κ} {t : Tables κ} {i : Nat} {x : κ} :
    p.types k = some t → t.slots[i]? = some x → Inherits p k i x
  | base {k : κ} {t : Tables κ} {b : κ} {i : Nat} {x : κ} :
    p.types k = some t → t.slots.length ≤ i → t.base = some b → Inherits p b i x →
      Inherits p k i x

namespace Inherits

lemma exists_types (h : p.Inherits k i x) : ∃ t, p.types k = some t := by
  cases h with
  | own ht _ => exact ⟨_, ht⟩
  | base ht _ _ _ => exact ⟨_, ht⟩

/-- A slot that the type's own table has is not inherited. -/
lemma getElem?_of_lt (h : p.Inherits k i x) (ht : p.types k = some t) (hlt : i < t.slots.length) :
    t.slots[i]? = some x := by
  cases h with
  | own ht' hx =>
    rw [ht, Option.some.injEq] at ht'
    exact ht' ▸ hx
  | base ht' hle _ _ =>
    rw [ht, Option.some.injEq] at ht'
    subst ht'
    omega

lemma of_le (h : p.Inherits k i x) (ht : p.types k = some t) (hle : t.slots.length ≤ i) :
    ∃ b, t.base = some b ∧ p.Inherits b i x := by
  cases h with
  | own ht' hx =>
    rw [ht, Option.some.injEq] at ht'
    subst ht'
    rw [List.getElem?_eq_none hle] at hx
    cases hx
  | base ht' _ hbase hrest =>
    rw [ht, Option.some.injEq] at ht'
    exact ⟨_, ht' ▸ hbase, hrest⟩

/-- A slot inherits one entry only. -/
lemma unique (h : p.Inherits k i x) (h' : p.Inherits k i y) : x = y := by
  induction h with
  | own ht hx =>
    have hlt := (List.getElem?_eq_some_iff.mp hx).1
    rw [h'.getElem?_of_lt ht hlt, Option.some.injEq] at hx
    exact hx.symm
  | base ht hle hbase _ ih =>
    obtain ⟨b, hb, hrest⟩ := h'.of_le ht hle
    rw [hbase, Option.some.injEq] at hb
    exact ih (hb ▸ hrest)

/-- What is inherited stays so in a program that has the same types and others. -/
lemma mono (htypes : ∀ k t, p.types k = some t → q.types k = some t) (h : p.Inherits k i x) :
    q.Inherits k i x := by
  induction h with
  | own ht hx => exact .own (htypes _ _ ht) hx
  | base ht hle hbase _ ih => exact .base (htypes _ _ ht) hle hbase ih

end Inherits

/-- Something is inherited in a slot if a type on the way up has the slot. -/
lemma exists_inherits_iff : (∃ x, p.Inherits k i x) ↔
    ∃ b t, Relation.ReflTransGen p.DerivesFrom k b ∧ p.types b = some t ∧ i < t.slots.length := by
  constructor
  · rintro ⟨x, h⟩
    induction h with
    | own ht hx => exact ⟨_, _, .refl, ht, (List.getElem?_eq_some_iff.mp hx).1⟩
    | base ht _ hbase _ ih =>
      obtain ⟨b, u, hpath, hu, hlt⟩ := ih
      exact ⟨b, u, .head ⟨_, ht, hbase⟩ hpath, hu, hlt⟩
  · rintro ⟨b, u, hpath, hu, hlt⟩
    induction hpath using Relation.ReflTransGen.head_induction_on with
    | refl => exact ⟨_, .own hu (List.getElem?_eq_getElem hlt)⟩
    | head hderives _ ih =>
      obtain ⟨t, ht, hbase⟩ := hderives
      obtain ⟨x, hx⟩ := ih
      by_cases hown : i < t.slots.length
      · exact ⟨_, .own ht (List.getElem?_eq_getElem hown)⟩
      · exact ⟨x, .base ht (not_lt.mp hown) hbase hx⟩

/-- No table is shorter than that of the base. -/
def Complete (p : Program κ) : Prop :=
  ∀ k t b u, p.types k = some t → t.base = some b → p.types b = some u →
    u.slots.length ≤ t.slots.length

/-- In complete tables nothing is left to inherit. -/
lemma Complete.getElem?_of_inherits (hp : p.Complete) (h : p.Inherits k i x)
    (ht : p.types k = some t) : t.slots[i]? = some x := by
  induction h generalizing t with
  | own ht' hx =>
    rw [ht, Option.some.injEq] at ht'
    exact ht' ▸ hx
  | base ht' hle hbase hrest ih =>
    rw [ht, Option.some.injEq] at ht'
    subst ht'
    obtain ⟨u, hu⟩ := hrest.exists_types
    have hlt := (List.getElem?_eq_some_iff.mp (ih hu)).1
    have hcover := hp _ _ _ _ ht hbase hu
    omega

/-! ### Continued tables -/

/-- Some tables are continued, without a change to what is inherited. -/
structure Continues (p q : Program κ) : Prop where
  functions : q.functions = p.functions
  types_none : ∀ k, p.types k = none → q.types k = none
  types_some : ∀ k t, p.types k = some t →
    ∃ rest, q.types k = some { t with slots := t.slots ++ rest }
  inherits : ∀ k i x, q.Inherits k i x ↔ p.Inherits k i x

namespace Continues

lemma refl (p : Program κ) : p.Continues p :=
  ⟨rfl, fun _ h => h, fun k t ht => ⟨[], by simp [ht]⟩, fun _ _ _ => .rfl⟩

lemma trans (h : p.Continues q) (h' : q.Continues r) : p.Continues r := by
  refine ⟨h'.functions.trans h.functions, fun k hk => h'.types_none k (h.types_none k hk), ?_,
    fun k i x => (h'.inherits k i x).trans (h.inherits k i x)⟩
  intro k t ht
  obtain ⟨rest, hq⟩ := h.types_some k t ht
  obtain ⟨rest', hr⟩ := h'.types_some k _ hq
  exact ⟨rest ++ rest', by rw [hr, List.append_assoc]⟩

lemma exists_types (h : p.Continues q) (ht : q.types k = some t) :
    ∃ u, p.types k = some u ∧ t = { u with slots := t.slots } ∧ u.slots <+: t.slots := by
  cases hu : p.types k with
  | none =>
    rw [h.types_none k hu] at ht
    cases ht
  | some u =>
    obtain ⟨rest, hrest⟩ := h.types_some k u hu
    rw [ht, Option.some.injEq] at hrest
    subst hrest
    exact ⟨u, rfl, rfl, List.prefix_append _ _⟩

lemma isSome_types_iff (h : p.Continues q) (k : κ) :
    (q.types k).isSome ↔ (p.types k).isSome := by
  cases ht : p.types k with
  | none => rw [h.types_none k ht]
  | some t =>
    obtain ⟨rest, hrest⟩ := h.types_some k t ht
    simp [hrest]

/-- Complete tables hold what was inherited before they were continued. -/
lemma getElem?_iff (h : p.Continues q) (hq : q.Complete) (ht : q.types k = some t) :
    t.slots[i]? = some x ↔ p.Inherits k i x := by
  rw [← h.inherits]
  exact ⟨.own ht, fun hx => hq.getElem?_of_inherits hx ht⟩

/-- A table is continued if one further up has more slots. -/
lemma length_lt_iff (h : p.Continues q) (hq : q.Complete) (ht : p.types k = some t)
    (hu : q.types k = some u) : t.slots.length < u.slots.length ↔
      ∃ b v, p.SubtypeOf k b ∧ p.types b = some v ∧ t.slots.length < v.slots.length := by
  have hinherits : t.slots.length < u.slots.length ↔ ∃ x, p.Inherits k t.slots.length x := by
    have hsome : (u.slots[t.slots.length]?).isSome ↔ t.slots.length < u.slots.length := by simp
    rw [← hsome, Option.isSome_iff_exists]
    exact exists_congr fun x => h.getElem?_iff hq hu
  rw [hinherits, exists_inherits_iff]
  simp only [Relation.reflTransGen_iff_eq_or_transGen]
  constructor
  · rintro ⟨b, v, rfl | hsub, hv, hlt⟩
    · rw [ht, Option.some.injEq] at hv
      exact absurd hlt (hv ▸ lt_irrefl _)
    · exact ⟨b, v, hsub, hv, hlt⟩
  · rintro ⟨b, v, hsub, hv, hlt⟩
    exact ⟨b, v, .inr hsub, hv, hlt⟩

/-- There is one way to continue tables until they are complete. -/
theorem unique (hq : p.Continues q) (hr : p.Continues r) (hq' : q.Complete) (hr' : r.Complete) :
    q = r := by
  apply Program.ext
  · rw [hq.functions, hr.functions]
  · funext k
    cases ht : p.types k with
    | none => rw [hq.types_none k ht, hr.types_none k ht]
    | some t =>
      obtain ⟨rest, hrest⟩ := hq.types_some k t ht
      obtain ⟨rest', hrest'⟩ := hr.types_some k t ht
      have hslots : t.slots ++ rest = t.slots ++ rest' := by
        apply List.ext_getElem?
        intro i
        apply Option.ext
        intro x
        exact (hq.getElem?_iff hq' hrest).trans (hr.getElem?_iff hr' hrest').symm
      rw [hrest, hrest', hslots]

end Continues

/-! ### A round -/

def missing (p : Program κ) (t : Tables κ) : List κ :=
  ((t.base.bind p.types).map (·.slots.drop t.slots.length)).getD []

/-- Every table gets the slots that it lacks of its base's. -/
def round (p : Program κ) : Program κ :=
  { p with types := fun k => (p.types k).map fun t => { t with slots := t.slots ++ p.missing t } }

lemma types_round (ht : p.types k = some t) :
    p.round.types k = some { t with slots := t.slots ++ p.missing t } := by
  simp [round, ht]

lemma getElem?_missing (hx : (p.missing t)[i - t.slots.length]? = some x)
    (hle : t.slots.length ≤ i) :
    ∃ b u, t.base = some b ∧ p.types b = some u ∧ u.slots[i]? = some x := by
  simp only [missing] at hx
  cases hbase : t.base with
  | none => simp [hbase] at hx
  | some b =>
    cases hu : p.types b with
    | none => simp [hbase, hu] at hx
    | some u =>
      simp only [hbase, Option.bind_some, hu, Option.map_some, Option.getD_some,
        List.getElem?_drop, Nat.add_sub_cancel' hle] at hx
      exact ⟨b, u, rfl, hu, hx⟩

/-- A slot of a continued table holds what was inherited there. -/
lemma inherits_of_getElem?_round (ht : p.types k = some t)
    (hx : (t.slots ++ p.missing t)[i]? = some x) : p.Inherits k i x := by
  by_cases hlt : i < t.slots.length
  · rw [List.getElem?_append_left hlt] at hx
    exact .own ht hx
  · have hle : t.slots.length ≤ i := by omega
    rw [List.getElem?_append_right hle] at hx
    obtain ⟨b, u, hbase, hu, hx⟩ := getElem?_missing hx hle
    exact .base ht hle hbase (.own hu hx)

lemma inherits_round_iff : p.round.Inherits k i x ↔ p.Inherits k i x := by
  constructor
  · intro h
    induction h with
    | own ht' hx =>
      obtain ⟨t, ht, rfl⟩ := Option.map_eq_some_iff.mp ht'
      exact inherits_of_getElem?_round ht hx
    | base ht' hle hbase _ ih =>
      obtain ⟨t, ht, rfl⟩ := Option.map_eq_some_iff.mp ht'
      rw [List.length_append] at hle
      exact .base ht (by omega) hbase ih
  · intro h
    induction h with
    | @own k t i x ht hx =>
      refine .own (types_round ht) ?_
      rw [List.getElem?_append_left (List.getElem?_eq_some_iff.mp hx).1]
      exact hx
    | @base k t b i x ht hle hbase hrest ih =>
      -- the slot may have been filled by the round, and then with the same entry
      by_cases hshort : (t.slots ++ p.missing t).length ≤ i
      · exact .base (types_round ht) hshort hbase ih
      · have hlt : i < (t.slots ++ p.missing t).length := by omega
        have hy := List.getElem?_eq_getElem hlt
        have hsame := (inherits_of_getElem?_round ht hy).unique (.base ht hle hbase hrest)
        exact .own (types_round ht) (hsame ▸ hy)

lemma continues_round (p : Program κ) : p.Continues p.round where
  functions := rfl
  types_none k hk := by simp [round, hk]
  types_some k t ht := ⟨p.missing t, types_round ht⟩
  inherits _ _ _ := inherits_round_iff

end Program

namespace Store

variable {s : Store} {acc : Store × Extensions} {id : SymbolId} {slot : Nat}

/-! ### The rounds of a store -/

lemma missing_namedTables (hs : s.Faithful) {t : TypeSummary} (ht : s.type? id = some t) :
    s.named.missing (s.namedTables t) = (s.missingSlots t).map s.shownName := by
  simp only [Program.missing, missingSlots, baseOf?, namedTables]
  cases hbase : t.base with
  | none => rfl
  | some base =>
    have hlookup := lookup_shownName hs.size_lt (hs.wellFormed.contains_base ht hbase)
    cases hu : s.type? base with
    | none => simp [types_named_of_lookup hlookup, hu]
    | some u => simp [types_named_of_lookup hlookup, hu, namedTables, List.map_drop]

lemma namedTables_completed (hs : s.Faithful) {t : TypeSummary} (ht : s.type? id = some t) :
    s.namedTables (s.completed t) =
      { s.namedTables t with
        slots := (s.namedTables t).slots ++ s.named.missing (s.namedTables t) } := by
  rw [missing_namedTables hs ht]
  simp [namedTables, completed, addSlots]

lemma Faithful.inheritRound (hs : acc.1.Faithful) : (inheritRound acc).1.Faithful := by
  refine ⟨hs.wellFormed.inheritRound, ?_⟩
  rw [hs.wellFormed.typesFiled.fst_inheritRound]
  exact hs.size_lt

/-- A round of a store is a round of its program by name. -/
lemma named_inheritRound (hs : acc.1.Faithful) :
    (inheritRound acc).1.named = acc.1.named.round := by
  rw [hs.wellFormed.typesFiled.fst_inheritRound]
  apply Program.ext
  · rfl
  · funext name
    cases hid : acc.1.symbols.lookup name with
    | none => simp [Program.round, named, typeNamed?, hid]
    | some id =>
      cases ht : acc.1.type? id with
      | none =>
        have hnone : acc.1.types.get? id = none := ht
        simp [Program.round, named, typeNamed?, hid, type?, hnone]
      | some t =>
        have hsome : acc.1.types.get? id = some t := ht
        rw [Program.types_round ((types_named_of_lookup hid).trans (by rw [ht, Option.map_some])),
          ← namedTables_completed hs ht]
        simp [named, typeNamed?, hid, type?, hsome]
        rfl

lemma continues_inheritRounds (acc : Store × Extensions) (hs : acc.1.Faithful) (fuel : Nat) :
    acc.1.named.Continues (inheritRounds fuel acc).1.named ∧
      (inheritRounds fuel acc).1.Faithful := by
  refine inheritRounds_induction
    (P := fun acc' => acc.1.named.Continues acc'.1.named ∧ acc'.1.Faithful) ?_ fuel ⟨.refl _, hs⟩
  rintro acc' ⟨hcontinues, hfaithful⟩
  refine ⟨hcontinues.trans ?_, hfaithful.inheritRound⟩
  rw [named_inheritRound hfaithful]
  exact acc'.1.named.continues_round

namespace Faithful

theorem continues_inheritMissingSlots (hs : s.Faithful) :
    s.named.Continues s.inheritMissingSlots.1.named :=
  (continues_inheritRounds (s, []) hs s.roundBound).1

lemma inheritMissingSlots (hs : s.Faithful) : s.inheritMissingSlots.1.Faithful :=
  (continues_inheritRounds (s, []) hs s.roundBound).2

lemma complete_named (hs : s.Faithful) (h : s.SlotsCoverBases) : s.named.Complete := by
  intro name T base U hT hbase hU
  obtain ⟨id, t, -, ht, rfl⟩ := types_named_eq_some_iff.mp hT
  obtain ⟨baseId, u, hlookup, hu, rfl⟩ := types_named_eq_some_iff.mp hU
  obtain ⟨b, hb, rfl⟩ := Option.map_eq_some_iff.mp hbase
  rw [lookup_shownName hs.size_lt (hs.wellFormed.contains_base ht hb), Option.some.injEq] at hlookup
  subst hlookup
  have hcover := h t (IdMap.mem_values_iff.mpr ⟨id, ht⟩) u (by simp [baseOf?, hb, hu])
  simpa [namedTables] using hcover

lemma slotsCoverBases_of_complete_named (hs : s.Faithful) (h : s.named.Complete) :
    s.SlotsCoverBases := by
  intro t ht u hu
  obtain ⟨id, ht⟩ := IdMap.mem_values_iff.mp ht
  obtain ⟨base, hbase, hu⟩ := Option.bind_eq_some_iff.mp hu
  have hcover := h _ _ (s.shownName base) _ (hs.types_named_eq ht) (by simp [namedTables, hbase])
    (hs.types_named_eq hu)
  simpa [namedTables] using hcover

end Faithful

/-! ### The types extended -/

/-- The types extended so far over a store are those whose tables are longer than before, each with
the length it had. -/
structure Extends (s : Store) (acc : Store × Extensions) : Prop where
  length_le : ∀ {id t'}, acc.1.type? id = some t' →
    ∃ t, s.type? id = some t ∧ t.slots.length ≤ t'.slots.length
  mem_iff : ∀ {id slot}, (id, slot) ∈ acc.2 ↔ ∃ t t', s.type? id = some t ∧
    acc.1.type? id = some t' ∧ slot = t.slots.length ∧ slot < t'.slots.length

lemma Extends.init (s : Store) : Extends s (s, []) := by
  refine ⟨fun ht => ⟨_, ht, le_refl _⟩, ?_⟩
  intro id slot
  simp only [List.not_mem_nil, false_iff]
  rintro ⟨t, t', ht, ht', rfl, hlt⟩
  rw [ht, Option.some.injEq] at ht'
  exact absurd hlt (by simp [ht'])

/-- The type under one id has got more slots. -/
lemma type?_modify_slots {s' : Store} {t : TypeSummary} (ht : s'.type? id = some t)
    (rest : List SymbolId) (id' : SymbolId) :
    Store.type? { s' with types := s'.types.modify id fun t =>
      { t with slots := t.slots ++ rest } } id' =
      if id' = id then some { t with slots := t.slots ++ rest } else s'.type? id' := by
  simp only [type?, IdMap.get?_modify] at ht ⊢
  split
  · rename_i heq
    rw [heq, ht, Option.map_some]
  · rfl

lemma Extends.mem_iff_of_types (h : Extends s acc) {t t' : TypeSummary} (ht : s.type? id = some t)
    (ht' : acc.1.type? id = some t') :
    (id, slot) ∈ acc.2 ↔ slot = t.slots.length ∧ slot < t'.slots.length := by
  rw [h.mem_iff]
  simp [ht, ht']

/-- A type is noted once its table has become longer. -/
lemma Extends.any_eq_true_iff (h : Extends s acc) {t t' : TypeSummary} (ht : s.type? id = some t)
    (ht' : acc.1.type? id = some t') :
    acc.2.any (·.1 = id) = true ↔ t.slots.length < t'.slots.length := by
  rw [List.any_eq_true]
  constructor
  · rintro ⟨⟨noted, slot⟩, hmem, hnoted⟩
    obtain rfl : noted = id := by simpa using hnoted
    obtain ⟨rfl, hlt⟩ := (h.mem_iff_of_types ht ht').mp hmem
    exact hlt
  · intro hlt
    exact ⟨(id, t.slots.length), (h.mem_iff_of_types ht ht').mpr ⟨rfl, hlt⟩, by simp⟩

/-- A type that gets more slots is noted by then, with the length that it had in the beginning. -/
lemma Extends.mem_noted (h : Extends s acc) {t t' : TypeSummary} (ht : s.type? id = some t)
    (ht' : acc.1.type? id = some t') (hle : t.slots.length ≤ t'.slots.length) {id' : SymbolId} :
    (id', slot) ∈ (if acc.2.any (·.1 = id) then acc.2 else acc.2 ++ [(id, t'.slots.length)]) ↔
      if id' = id then slot = t.slots.length else (id', slot) ∈ acc.2 := by
  have hany := h.any_eq_true_iff ht ht'
  split
  · rename_i hnoted
    have hlt := hany.mp hnoted
    split
    · rename_i heq
      rw [heq, h.mem_iff_of_types ht ht']
      exact and_iff_left_of_imp fun hslot => hslot ▸ hlt
    · rfl
  · rename_i hnoted
    have hsame : t'.slots.length = t.slots.length :=
      le_antisymm (not_lt.mp (hany.not.mp hnoted)) hle
    rw [List.mem_append, List.mem_singleton, Prod.mk.injEq, hsame]
    split
    · rename_i heq
      rw [heq, h.mem_iff_of_types ht ht']
      simp only [true_and]
      exact or_iff_right_of_imp And.left
    · rename_i hne
      simp [hne]

lemma Extends.extendSlots (h : Extends s acc) {short : SymbolId × List SymbolId}
    (hrest : short.2 ≠ []) : Extends s (extendSlots acc short) := by
  obtain ⟨s', extended⟩ := acc
  obtain ⟨id, rest⟩ := short
  simp only [Store.extendSlots]
  split
  · exact h
  · rename_i t' ht'
    obtain ⟨t, ht, hle⟩ := h.length_le ht'
    have hlt : t.slots.length < (t'.slots ++ rest).length := by
      have hpos : 0 < rest.length := List.length_pos_iff.mpr hrest
      rw [List.length_append]
      omega
    constructor
    · intro id' u hu
      rw [type?_modify_slots ht'] at hu
      split at hu
      · rename_i heq
        cases hu
        exact ⟨t, heq ▸ ht, hlt.le⟩
      · exact h.length_le hu
    · intro id' slot
      rw [h.mem_noted ht ht' hle, type?_modify_slots ht']
      split
      · rename_i heq
        rw [heq]
        constructor
        · rintro rfl
          exact ⟨t, _, ht, rfl, rfl, hlt⟩
        · rintro ⟨u, -, hu, -, rfl, -⟩
          rw [ht, Option.some.injEq] at hu
          rw [hu]
      · exact h.mem_iff

lemma Extends.inheritRound (h : Extends s acc) : Extends s (inheritRound acc) := by
  refine List.foldlRecOn (motive := Extends s) _ _ h ?_
  intro acc' hacc' short hshort
  have hrest := (List.mem_filter.mp hshort).2
  exact hacc'.extendSlots (by simpa using hrest)

/-- The types noted are those whose tables have been continued, with the lengths they had. -/
theorem mem_snd_inheritMissingSlots : (id, slot) ∈ s.inheritMissingSlots.2 ↔
    ∃ t t', s.type? id = some t ∧ s.inheritMissingSlots.1.type? id = some t' ∧
      slot = t.slots.length ∧ slot < t'.slots.length :=
  (inheritRounds_induction (fun _ h => h.inheritRound) s.roundBound (Extends.init s)).mem_iff

end Store

end LinkSummary
