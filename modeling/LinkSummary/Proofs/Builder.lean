import LinkSummary.Proofs.Binary.Canonical

/-!
# What a front end builds

A builder checks the slots of a type in both directions when the type is recorded: against its base,
and against the types derived from it that were recorded before. So no class has fewer slots than
its base after any call, and what is built with the flags in use can be written and read back.
-/

namespace LinkSummary

variable {s s' : Store} {t : TypeSummary} {id : SymbolId} {b : Builder}

/-! ### Slots of bases -/

/-- Nothing forbids a type exactly if it has the slots of its base, and no more than the types
derived from it have. -/
lemma Builder.slotConflict?_eq_none_iff {base : Option SymbolId} {slots : Nat} :
    slotConflict? s id base slots = none ↔
      (∀ u, base >>= s.type? = some u → u.slots.length ≤ slots) ∧
        ∀ u ∈ s.types.values, u.base = some id → slots ≤ u.slots.length := by
  have hderived : slotConflict?.derivedConflict s id slots = none ↔
      ∀ u ∈ s.types.values, u.base = some id → slots ≤ u.slots.length := by
    simp [slotConflict?.derivedConflict]
  rw [slotConflict?]
  cases base >>= s.type? with
  | none => simp [hderived]
  | some u =>
    by_cases hshort : slots < u.slots.length
    · simp [hshort]
    · simp [hshort, hderived, Nat.le_of_not_lt hshort]

namespace Store

namespace SlotsCoverBases

lemma congr (hs : s.SlotsCoverBases) (htypes : s'.types = s.types) : s'.SlotsCoverBases := by
  rw [slotsCoverBases_iff] at hs ⊢
  simp only [type?, htypes] at hs ⊢
  exact hs

/-- A type that nothing forbids may be inserted, also one that is its own base. -/
lemma insertType (hs : s.SlotsCoverBases)
    (hslots : Builder.slotConflict? s t.id t.base t.slots.length = none)
    (h : s.insertType t = .ok s') : s'.SlotsCoverBases := by
  obtain ⟨-, -, rfl⟩ := insertType_eq_ok_iff.mp h
  obtain ⟨hbases, hderived⟩ := Builder.slotConflict?_eq_none_iff.mp hslots
  rw [slotsCoverBases_iff] at hs ⊢
  intro id u base v hu hbase hv
  simp only [type?, IdMap.get?_insert] at hu hv
  split at hu
  · cases hu
    split at hv
    · cases hv
      exact Nat.le_refl _
    · exact hbases v (Option.bind_eq_some_iff.mpr ⟨base, hbase, hv⟩)
  · split at hv
    · rename_i heq
      cases hv
      exact hderived u (IdMap.mem_values_iff.mpr ⟨id, hu⟩) (heq ▸ hbase)
    · exact hs id u base v hu hbase hv

/-- What is not about bases and slots may be changed. -/
lemma modifyType (hs : s.SlotsCoverBases) {g : TypeSummary → TypeSummary}
    (hbase : ∀ t, (g t).base = t.base) (hslots : ∀ t, (g t).slots = t.slots) :
    SlotsCoverBases { s with types := s.types.modify id g } := by
  have htype : ∀ {key u}, (s.types.modify id g).get? key = some u →
      ∃ t, s.type? key = some t ∧ u.base = t.base ∧ u.slots = t.slots := by
    intro key u hu
    rw [IdMap.get?_modify] at hu
    split at hu
    · obtain ⟨t, ht, rfl⟩ := Option.map_eq_some_iff.mp hu
      exact ⟨t, ht, hbase t, hslots t⟩
    · exact ⟨u, hu, rfl, rfl⟩
  rw [slotsCoverBases_iff] at hs ⊢
  intro key u base v hu hubase hv
  obtain ⟨t, ht, htbase, htslots⟩ := htype hu
  obtain ⟨t', ht', -, htslots'⟩ := htype hv
  rw [htslots, htslots']
  exact hs key t base t' ht (htbase ▸ hubase) ht'

lemma setDebugName {name : Option String} (hs : s.SlotsCoverBases)
    (h : s.setDebugName id name = .ok s') : s'.SlotsCoverBases := by
  rw [Store.setDebugName] at h
  split at h
  · cases h
    exact hs.congr rfl
  · cases h

end SlotsCoverBases

lemma MoreNames.slotsCoverBases (h : s.MoreNames s') (hs : s.SlotsCoverBases) :
    s'.SlotsCoverBases :=
  hs.congr (by rw [h.eq])

/-- No call of the builder leaves a class with fewer slots than its base. -/
theorem BuilderEffect.slotsCoverBases {call : Builder.Operation} (h : BuilderEffect s call s')
    (hs : s.SlotsCoverBases) : s'.SlotsCoverBases := by
  cases h with
  | names hnames => exact hnames.slotsCoverBases hs
  | recordFunction hnames hinsert =>
    obtain ⟨-, -, heq⟩ := insertFunction_eq_ok_iff.mp hinsert
    exact (hnames.slotsCoverBases hs).congr (heq ▸ rfl)
  | setDebugName hset => exact hs.setDebugName hset
  | recordCall hnames _ => exact (hnames.slotsCoverBases hs).congr rfl
  | recordType hnames hslots hinsert => exact (hnames.slotsCoverBases hs).insertType hslots hinsert
  | recordWitness hnames _ _ =>
    exact (hnames.slotsCoverBases hs).modifyType (fun _ => rfl) fun _ => rfl

end Store

/-! ### Runs -/

namespace Builder

/-- The store after some calls on a new builder. -/
def run (moduleName : String) (calls : List Operation) : Store :=
  (calls.foldl perform (begin moduleName)).finish

lemma run_eq_performAll (moduleName : String) (calls : List Operation) :
    run moduleName calls = Store.performAll moduleName (calls.map .build) := by
  induction calls using List.reverseRecOn with
  | nil => rfl
  | append_singleton calls call ih =>
    rw [run, List.foldl_append, List.map_append, Store.performAll, List.foldl_append,
      ← Store.performAll, ← ih]
    rfl

lemma slotsCoverBases_run (moduleName : String) (calls : List Operation) :
    (run moduleName calls).SlotsCoverBases := by
  have hbegin : (begin moduleName).store.SlotsCoverBases := List.forall_mem_nil _
  exact List.foldlRecOn (motive := fun b : Builder => b.store.SlotsCoverBases) _ _ hbegin
    fun b hb call _ => (Store.builderEffect_perform b call).slotsCoverBases hb

/-- After every call, also one that fails, no class has fewer slots than its base, in whatever order
they are recorded. As long as ids can tell the names apart, what is built at last can be written and
read back exactly if no function in it has a flag but those in use, so it can be if no other flag is
ever recorded. Lengths are stored in 64 bits. -/
theorem checkVtables_run (moduleName : String) (calls : List Operation) :
    (∀ before, before <+: calls → (run moduleName before).checkVtables = .ok ()) ∧
    ((run moduleName calls).symbols.size < 2 ^ 32 →
      ((run moduleName calls).encode true).length < 2 ^ 64 →
        ((∀ call ∈ calls, Store.Operation.FlagsKnown (.build call)) →
          Store.decode ((run moduleName calls).encode true) = .ok (run moduleName calls)) ∧
        (Store.decode ((run moduleName calls).encode true) = .ok (run moduleName calls) ↔
          (run moduleName calls).FlagsKnown)) := by
  have hvtables : ∀ before, (run moduleName before).checkVtables = .ok () := fun before =>
    Store.checkVtables_eq_ok_iff.mpr (slotsCoverBases_run moduleName before)
  refine ⟨fun before _ => hvtables before, fun hsize hlen => ?_⟩
  have hread : (run moduleName calls).FlagsKnown →
      Store.decode ((run moduleName calls).encode true) = .ok (run moduleName calls) := by
    intro hflags
    have hbuilt : (run moduleName calls).Built :=
      ⟨⟨moduleName, calls.map .build, run_eq_performAll moduleName calls⟩, hsize⟩
    rw [hbuilt.wellFormed.decode_encode hflags true hlen, hvtables]
    rfl
  refine ⟨fun hcalls => hread ?_, fun h => ?_, hread⟩
  · have hmade : (run moduleName calls).Made :=
      ⟨⟨moduleName, calls.map .build, List.forall_mem_map.mpr hcalls,
        run_eq_performAll moduleName calls⟩, hsize⟩
    exact hmade.flagsKnown
  · obtain ⟨file, hfile, -, heq⟩ := Store.decode_eq_ok_iff.mp h
    rw [heq]
    exact SummaryFile.flagsKnown_store hfile

/-- A class recorded before its base, which is refused with two slots and then recorded with one,
derived from the class in turn; a class that is its own base, the first class once more, and a
witness for no type. -/
theorem checkVtables_run_cycle :
    let calls : List Operation := [.recordType "C" (some "B") ["f"],
      .recordType "B" none ["f", "g"], .recordType "B" (some "C") ["f"],
      .recordType "S" (some "S") [], .recordType "C" none [], .recordWitness ⟨9⟩ "r" "f",
      .recordFunction "f" { preserved := true }, .recordCall ⟨3⟩ "g" .virtual false]
    (run "m" calls).types.keys = [⟨1⟩, ⟨2⟩, ⟨5⟩] ∧
      (run "m" (calls.take 2)).checkVtables = .ok () ∧
      Store.decode ((run "m" calls).encode true) = .ok (run "m" calls) := by
  intro calls
  obtain ⟨hall, hread⟩ := checkVtables_run "m" calls
  have hflags : ∀ call ∈ calls, Store.Operation.FlagsKnown (.build call) := by
    simp [calls, Store.Operation.FlagsKnown]
    rfl
  have htake : calls.take 2 <+: calls := List.take_prefix 2 calls
  exact ⟨by decide +kernel, hall _ htake,
    (hread (by decide +kernel) (by decide +kernel)).1 hflags⟩

/-- A flag that is not in use is written, but it is not read. -/
theorem decode_run_ne_of_reserved :
    let calls : List Operation := [.recordFunction "f" (.ofBits 8)]
    (run "m" calls).symbols.size = 1 ∧
      Store.decode ((run "m" calls).encode true) = .ok (run "m" [.recordFunction "f" .empty]) ∧
      Store.decode ((run "m" calls).encode true) ≠ .ok (run "m" calls) := by
  decide +kernel

end Builder

end LinkSummary
