import LinkSummary.Proofs.Dispatch
import LinkSummary.Proofs.Store.Operation

/-!
# The dispatch index against a scan of the types

The index turns the tables of the types around and searches for subtypes; a scan would look at
every type for each question. Both give the same answers for every store that calls of the API can
build, also where ids are too few for the names: bases may be missing or lead back, a table may hold
an implementation in several slots, and unrelated types may share it.
-/

namespace LinkSummary

namespace Store

variable {s : Store} {sub type callee : SymbolId} {slot : Nat}

/-! ### Slots of subtypes -/

lemma SubtypeOf.exists_type? (h : s.SubtypeOf sub type) : ∃ t, s.type? sub = some t := by
  obtain ⟨_, ⟨t, ht, -⟩, -⟩ := Relation.TransGen.head'_iff.mp h
  exact ⟨t, ht⟩

/-- If derived classes have the slots of their bases, then subtypes have those of their types. -/
lemma SlotsCoverBases.length_le {t u : TypeSummary} (hs : s.SlotsCoverBases)
    (h : s.SubtypeOf sub type) (ht : s.type? sub = some t) (hu : s.type? type = some u) :
    u.slots.length ≤ t.slots.length := by
  rw [slotsCoverBases_iff] at hs
  induction h using Relation.TransGen.head_induction_on generalizing t with
  | single hderives =>
    obtain ⟨t', ht', hbase⟩ := hderives
    rw [ht, Option.some.injEq] at ht'
    exact hs _ t _ u ht (ht' ▸ hbase) hu
  | head hderives hsub ih =>
    obtain ⟨t', ht', hbase⟩ := hderives
    obtain ⟨v, hv⟩ := SubtypeOf.exists_type? hsub
    rw [ht, Option.some.injEq] at ht'
    exact (ih hv).trans (hs _ t _ v ht (ht' ▸ hbase) hv)

/-- Then a subtype has an implementation in every slot of the type. -/
lemma SlotsCoverBases.exists_holdsSlot (hs : s.SlotsCoverBases) (h : s.SubtypeOf sub type)
    (hslot : s.HoldsSlot type slot callee) : ∃ override, s.HoldsSlot sub slot override := by
  obtain ⟨u, hu, hcallee⟩ := hslot
  obtain ⟨t, ht⟩ := h.exists_type?
  have hlt : slot < u.slots.length := (List.getElem?_eq_some_iff.mp hcallee).1
  exact ⟨_, t, ht, List.getElem?_eq_getElem (hlt.trans_le (hs.length_le h ht hu))⟩

end Store

namespace DispatchIndex

variable {s : Store}

/-! ### The index and the scan -/

/-- An index answers as a scan of the types of a store does. -/
structure Scans (x : DispatchIndex) (s : Store) : Prop where
  increasing : ∀ kind callee, (x.targets s kind callee).implementations.Pairwise (· < ·)
  direct : ∀ callee target, target ∈ (x.targets s .direct callee).implementations ↔
    target = callee
  virtual : ∀ callee target, target ∈ (x.targets s .virtual callee).implementations ↔
    target = callee ∨ ∃ type slot sub, s.HoldsSlot type slot callee ∧ sub ≠ type ∧
      s.SubtypeOf sub type ∧ s.HoldsSlot sub slot target
  witness : ∀ requirement target, target ∈ (x.targets s .witness requirement).implementations ↔
    ∃ type, s.HoldsWitness type requirement target
  unresolved : ∀ kind callee, (x.targets s kind callee).resolved = false ↔
    (kind = .virtual ∧ ∀ type slot, ¬ s.HoldsSlot type slot callee) ∨
      (kind = .witness ∧ ∀ type implementation, ¬ s.HoldsWitness type callee implementation)
  subtypes_increasing : ∀ type, (x.subtypesOf type).Pairwise (· < ·)
  subtypes : ∀ type sub, sub ∈ x.subtypesOf type ↔ sub ≠ type ∧ s.SubtypeOf sub type
  /-- With complete tables no subtype is passed over for want of the slot. -/
  overridden : s.checkVtables = .ok () → ∀ type slot callee, s.HoldsSlot type slot callee →
    ∀ sub ∈ x.subtypesOf type, ∃ target, s.HoldsSlot sub slot target ∧
      target ∈ (x.targets s .virtual callee).implementations

theorem scans_ofStore (hs : s.TypesFiled) : (ofStore s).Scans s where
  increasing := (ofStore s).targets_pairwise s
  direct callee target := List.mem_singleton
  virtual callee target := (mem_targets_ofStore hs).trans Store.dispatches_virtual_iff
  witness requirement target := by
    rw [targets, mem_sortedIds, mem_witnessImplementations_ofStore]
  unresolved kind callee := by
    rw [← Bool.not_eq_true, resolved_targets_eq_true_iff hs]
    cases kind <;> simp [Store.HasEntry]
  subtypes_increasing type := sortedIds_pairwise _
  subtypes type sub := mem_subtypesOf_ofStore hs
  overridden hcheck type slot callee hcallee sub hsub := by
    have hcover := Store.checkVtables_eq_ok_iff.mp hcheck
    have hderives := ((mem_subtypesOf_ofStore hs).mp hsub).2
    obtain ⟨target, htarget⟩ := hcover.exists_holdsSlot hderives hcallee
    exact ⟨target, htarget, (mem_targets_ofStore hs).mpr (.override hcallee hderives htarget)⟩

/-- Whatever calls of the API build a store, its index answers as a scan of the types does. -/
theorem scans_performAll (moduleName : String) (operations : List Store.Operation) :
    (ofStore (Store.performAll moduleName operations)).Scans
      (Store.performAll moduleName operations) :=
  scans_ofStore (Store.typesFiled_performAll moduleName operations)

/-- Two classes that derive from each other, one with an implementation in two slots, which a class
that is its own base and a class without a recorded base hold too. -/
example :
    let s := Store.performAll "m" [.build (.recordType "A" (some "B") ["f", "g", "f"]),
      .build (.recordType "B" (some "A") ["g", "h", "k"]),
      .build (.recordType "S" (some "S") ["f"]), .build (.recordType "C" (some "Z") ["f"])]
    (ofStore s).subtypesOf ⟨1⟩ = [⟨2⟩] ∧ (ofStore s).subtypesOf ⟨7⟩ = [] ∧
      (ofStore s).subtypesOf ⟨9⟩ = [⟨8⟩] ∧
      (ofStore s).targets s .virtual ⟨3⟩ = ⟨[⟨3⟩, ⟨4⟩, ⟨6⟩], true⟩ ∧
      (ofStore s).targets s .virtual ⟨9⟩ = ⟨[⟨9⟩], false⟩ ∧
      (ofStore s).targets s .witness ⟨3⟩ = ⟨[], false⟩ := by
  decide +kernel

end DispatchIndex

end LinkSummary
