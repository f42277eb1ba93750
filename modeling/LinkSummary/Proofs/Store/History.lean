import LinkSummary.Proofs.Store.Operation

/-!
# The history of a store

No call takes back what a store has recorded: names keep their ids, functions and types stay, calls
and slots are only put after those that are there, and flags are only set. This holds from any store
on. In a store made by calls, what is recorded also fits together.
-/

namespace LinkSummary

/-- A function before and after some calls. -/
structure FunctionSummary.Precedes (f f' : FunctionSummary) : Prop where
  id_eq : f'.id = f.id
  calls : f.calls <+: f'.calls
  live : f.isLive = true → f'.isLive = true
  /-- No other flag changes. -/
  flags : f'.flags = { f.flags with live := f'.flags.live }

/-- A type before and after some calls. -/
structure TypeSummary.Precedes (t t' : TypeSummary) : Prop where
  id_eq : t'.id = t.id
  base : t'.base = t.base
  slots : t.slots <+: t'.slots
  requirements : ∀ r, t.witnesses.contains r = true → t'.witnesses.contains r = true

lemma FunctionSummary.Precedes.refl (f : FunctionSummary) : f.Precedes f :=
  ⟨rfl, List.prefix_rfl, fun h => h, rfl⟩

lemma FunctionSummary.Precedes.trans {f f' f'' : FunctionSummary} (h : f.Precedes f')
    (h' : f'.Precedes f'') : f.Precedes f'' := by
  refine ⟨h'.id_eq.trans h.id_eq, h.calls.trans h'.calls, fun hf => h'.live (h.live hf), ?_⟩
  calc f''.flags = { f'.flags with live := f''.flags.live } := h'.flags
    _ = { f.flags with live := f''.flags.live } := by rw [h.flags]

lemma TypeSummary.Precedes.refl (t : TypeSummary) : t.Precedes t :=
  ⟨rfl, rfl, List.prefix_rfl, fun _ h => h⟩

lemma TypeSummary.Precedes.trans {t t' t'' : TypeSummary} (h : t.Precedes t')
    (h' : t'.Precedes t'') : t.Precedes t'' :=
  ⟨h'.id_eq.trans h.id_eq, h'.base.trans h.base, h.slots.trans h'.slots,
    fun r hr => h'.requirements r (h.requirements r hr)⟩

namespace Store

/-- A store before and after some calls. -/
structure Precedes (s s' : Store) : Prop where
  moduleName : s'.moduleName = s.moduleName
  names : s.symbols.names <+: s'.symbols.names
  computed : s.livenessComputed = true → s'.livenessComputed = true
  functions : ∀ {id f}, s.function? id = some f → ∃ f', s'.function? id = some f' ∧ f.Precedes f'
  types : ∀ {id t}, s.type? id = some t → ∃ t', s'.type? id = some t' ∧ t.Precedes t'

variable {s s' : Store} {id : SymbolId} {outcome : Except SummaryError Store}

namespace Precedes

lemma refl (s : Store) : s.Precedes s :=
  ⟨rfl, List.prefix_rfl, fun h => h, fun hf => ⟨_, hf, .refl _⟩, fun ht => ⟨_, ht, .refl _⟩⟩

lemma trans {s'' : Store} (h : s.Precedes s') (h' : s'.Precedes s'') : s.Precedes s'' := by
  refine ⟨h'.moduleName.trans h.moduleName, h.names.trans h'.names,
    fun hs => h'.computed (h.computed hs), ?_, ?_⟩
  · intro id f hf
    obtain ⟨f', hf', hprecedes⟩ := h.functions hf
    obtain ⟨f'', hf'', hprecedes'⟩ := h'.functions hf'
    exact ⟨f'', hf'', hprecedes.trans hprecedes'⟩
  · intro id t ht
    obtain ⟨t', ht', hprecedes⟩ := h.types ht
    obtain ⟨t'', ht'', hprecedes'⟩ := h'.types ht'
    exact ⟨t'', ht'', hprecedes.trans hprecedes'⟩

/-! ### One change -/

lemma of_moreNames (h : s.MoreNames s') : s.Precedes s' := by
  refine ⟨?_, h.names, ?_, ?_, ?_⟩
  · rw [h.eq]
  · rw [h.eq]
    exact fun hs => hs
  · intro id f hf
    exact ⟨f, (h.function? id).trans hf, .refl f⟩
  · intro id t ht
    exact ⟨t, (h.type? id).trans ht, .refl t⟩

/-- A new function is put beside those that are there. -/
lemma of_insertFunction {f : FunctionSummary} (h : s.insertFunction f = .ok s') :
    s.Precedes s' := by
  obtain ⟨-, hnew, rfl⟩ := insertFunction_eq_ok_iff.mp h
  refine ⟨rfl, List.prefix_rfl, fun hs => hs, ?_, fun ht => ⟨_, ht, .refl _⟩⟩
  intro id g hg
  have hne : id ≠ f.id := by
    rintro rfl
    rw [definesFunction_iff.mpr ⟨g, hg⟩] at hnew
    cases hnew
  refine ⟨g, ?_, .refl g⟩
  rw [function?, IdMap.get?_insert, if_neg hne]
  exact hg

lemma of_insertType {t : TypeSummary} (h : s.insertType t = .ok s') : s.Precedes s' := by
  obtain ⟨-, hnew, rfl⟩ := insertType_eq_ok_iff.mp h
  refine ⟨rfl, List.prefix_rfl, fun hs => hs, fun hf => ⟨_, hf, .refl _⟩, ?_⟩
  intro id u hu
  have hne : id ≠ t.id := by
    rintro rfl
    rw [IdMap.contains_iff.mpr ⟨u, hu⟩] at hnew
    cases hnew
  refine ⟨u, ?_, .refl u⟩
  rw [type?, IdMap.get?_insert, if_neg hne]
  exact hu

lemma modifyFunction {g : FunctionSummary → FunctionSummary}
    (hg : ∀ f : FunctionSummary, f.Precedes (g f)) :
    s.Precedes { s with functions := s.functions.modify id g } := by
  refine ⟨rfl, List.prefix_rfl, fun hs => hs, ?_, fun ht => ⟨_, ht, .refl _⟩⟩
  intro id' f hf
  rw [function?] at hf
  rw [function?, IdMap.get?_modify, hf]
  split
  · exact ⟨g f, rfl, hg f⟩
  · exact ⟨f, rfl, .refl f⟩

lemma modifyType {g : TypeSummary → TypeSummary} (hg : ∀ t : TypeSummary, t.Precedes (g t)) :
    s.Precedes { s with types := s.types.modify id g } := by
  refine ⟨rfl, List.prefix_rfl, fun hs => hs, fun hf => ⟨_, hf, .refl _⟩, ?_⟩
  intro id' t ht
  rw [type?] at ht
  rw [type?, IdMap.get?_modify, ht]
  split
  · exact ⟨g t, rfl, hg t⟩
  · exact ⟨t, rfl, .refl t⟩

lemma of_raises (h : s.Raises s') : s.Precedes s' := by
  refine ⟨h.moduleName, h.symbols ▸ List.prefix_rfl, h.computed, ?_, ?_⟩
  · intro id f hf
    obtain ⟨f', hf', rfl | rfl⟩ := h.exists_raised hf
    · exact ⟨f', hf', .refl f'⟩
    · exact ⟨f.markLive, hf', rfl, List.prefix_rfl, fun _ => rfl, rfl⟩
  · intro id t ht
    refine ⟨t, ?_, .refl t⟩
    rw [type?, h.types]
    exact ht

lemma of_setDebugName {name : Option String} (h : s.setDebugName id name = .ok s') :
    s.Precedes s' := by
  rw [setDebugName] at h
  split at h
  · cases h
    exact modifyFunction fun f => ⟨rfl, List.prefix_rfl, fun hf => hf, rfl⟩
  · cases h

lemma of_markLive (h : (s.markLive id).map (·.2) = .ok s') : s.Precedes s' := by
  rw [markLive] at h
  split at h
  · cases h
    exact of_raises (s.raises_setLive id)
  · cases h

lemma orElse (h : ∀ s', outcome = .ok s' → s.Precedes s') : s.Precedes (s.orElse outcome) := by
  cases outcome with
  | error e => exact refl s
  | ok s' => exact h s' rfl

end Precedes

/-! ### Inherited slots -/

lemma precedes_addSlots (rest : List SymbolId) (t : TypeSummary) :
    t.Precedes (addSlots rest t) :=
  ⟨rfl, rfl, List.prefix_append _ _, fun _ h => h⟩

/-- The slots that a round adds stand after those that are there, whether or not the store is
well-formed. -/
lemma precedes_inheritRound (acc : Store × Extensions) :
    acc.1.Precedes (inheritRound acc).1 :=
  List.foldlRecOn (motive := fun acc' : Store × Extensions => acc.1.Precedes acc'.1) _ _
    (.refl acc.1) fun acc' hacc short _ => by
      rw [fst_extendSlots]
      exact hacc.trans (.modifyType (precedes_addSlots short.2))

lemma precedes_inheritRounds (fuel : Nat) (acc : Store × Extensions) :
    acc.1.Precedes (inheritRounds fuel acc).1 :=
  inheritRounds_induction (P := fun acc' => acc.1.Precedes acc'.1)
    (fun acc' h => h.trans (precedes_inheritRound acc')) fuel (.refl acc.1)

/-! ### All calls -/

lemma BuilderEffect.precedes {call : Builder.Operation} (h : BuilderEffect s call s') :
    s.Precedes s' := by
  cases h with
  | names hnames => exact .of_moreNames hnames
  | recordFunction hnames hinsert =>
    exact (Precedes.of_moreNames hnames).trans (.of_insertFunction hinsert)
  | setDebugName hset => exact .of_setDebugName hset
  | recordCall hnames _ =>
    refine (Precedes.of_moreNames hnames).trans (.modifyFunction fun f => ?_)
    exact ⟨rfl, List.prefix_append _ _, fun hf => hf, rfl⟩
  | recordType hnames _ hinsert =>
    exact (Precedes.of_moreNames hnames).trans (.of_insertType hinsert)
  | recordWitness hnames _ _ =>
    refine (Precedes.of_moreNames hnames).trans (.modifyType fun t => ?_)
    exact ⟨rfl, rfl, List.prefix_rfl, fun r hr => by simp [hr]⟩

theorem precedes_perform (s : Store) (operation : Operation) :
    s.Precedes (s.perform operation) := by
  cases operation with
  | intern name => exact .of_moreNames (s.moreNames_intern name)
  | insertFunction f => exact .orElse fun _ h => .of_insertFunction h
  | insertType t => exact .orElse fun _ h => .of_insertType h
  | setDebugName function name => exact .orElse fun _ h => .of_setDebugName h
  | markLive function => exact .orElse fun _ h => .of_markLive h
  | markLivenessComputed => exact .of_raises s.raises_markLivenessComputed
  | inheritMissingSlots => exact precedes_inheritRounds _ (s, [])
  | build call => exact (builderEffect_perform ⟨s⟩ call).precedes

lemma precedes_foldl_perform (s : Store) (operations : List Operation) :
    s.Precedes (operations.foldl perform s) := by
  induction operations generalizing s with
  | nil => exact .refl s
  | cons operation operations ih => exact (s.precedes_perform operation).trans (ih _)

/-! ### Stores made by calls -/

lemma defines_iff (hsize : s.symbols.size < 2 ^ 32) {name : String} : s.defines name = true ↔
    ∃ id, s.symbols.get? id = some name ∧
      ((∃ f, s.function? id = some f) ∨ ∃ t, s.type? id = some t) := by
  simp only [defines, Option.any_eq_true, Bool.or_eq_true, IdMap.contains_iff,
    SymbolTable.lookup_eq_some_iff hsize]
  rfl

/-- In a store made by calls, functions and types are filed under their own ids and mention interned
symbols only, none of which is the absent marker, and a name is defined exactly if a function or type
has it. Further calls, failing ones among them, take nothing back. -/
theorem Built.valid_and_precedes_foldl_perform (hs : s.Built) (operations : List Operation) :
    (∀ id f, s.function? id = some f → f.id = id ∧
      ∀ x ∈ f.mentioned, s.symbols.contains x = true ∧ x ≠ .absent) ∧
    (∀ id t, s.type? id = some t → t.id = id ∧
      ∀ x ∈ t.mentioned, s.symbols.contains x = true ∧ x ≠ .absent) ∧
    (∀ name, s.defines name = true ↔ ∃ id, s.symbols.get? id = some name ∧
      ((∃ f, s.function? id = some f) ∨ ∃ t, s.type? id = some t)) ∧
    s.Precedes (operations.foldl perform s) ∧
    ∀ id name, s.symbols.get? id = some name →
      (operations.foldl perform s).symbols.get? id = some name := by
  have hfits := hs.wellFormed
  have hlater := precedes_foldl_perform s operations
  refine ⟨?_, ?_, fun name => defines_iff hs.size_lt, hlater, ?_⟩
  · intro id f hf
    exact ⟨(hfits.functions hf).id_eq, (hfits.functions hf).mentioned⟩
  · intro id t ht
    exact ⟨(hfits.types ht).id_eq, (hfits.types ht).mentioned⟩
  · intro id name hname
    exact SymbolTable.get?_mono hlater.names hname

/-- A class is refused for its short table and leaves its names, is inserted all the same, and then
inherits a slot. -/
theorem Built.valid_and_precedes_of_short_class :
    let s := performAll "m" [.build (.recordType "B" none ["B.f", "B.g"]),
      .build (.recordType "C" (some "B") ["C.f"]), .insertFunction { id := ⟨9⟩ },
      .insertType { id := ⟨4⟩, base := some ⟨1⟩, slots := [⟨5⟩] }, .intern "D",
      .build (.recordFunction "C.f" {})]
    let s' := [.inheritMissingSlots, .build (.recordWitness ⟨4⟩ "r" "C.f"),
      .build (.recordCall ⟨5⟩ "B.g" .direct false), .markLive ⟨5⟩, .markLive ⟨1⟩,
      .build (.recordType "B" none [])].foldl perform s
    s.Built ∧ s.defines "C" = true ∧ s.defines "D" = false ∧ s.Precedes s' ∧
      s'.symbols.get? ⟨4⟩ = some "C" ∧ (s'.type? ⟨4⟩).map (·.slots) = some [⟨5⟩, ⟨3⟩] := by
  intro s s'
  have hs : s.Built := ⟨⟨_, _, rfl⟩, by decide +kernel⟩
  obtain ⟨-, -, hdefines, hlater, hnames⟩ := hs.valid_and_precedes_foldl_perform
    [.inheritMissingSlots, .build (.recordWitness ⟨4⟩ "r" "C.f"),
      .build (.recordCall ⟨5⟩ "B.g" .direct false), .markLive ⟨5⟩, .markLive ⟨1⟩,
      .build (.recordType "B" none [])]
  refine ⟨hs, (hdefines "C").mpr ⟨⟨4⟩, by decide +kernel, .inr ⟨_, rfl⟩⟩, by decide +kernel, hlater,
    hnames ⟨4⟩ "C" (by decide +kernel), by decide +kernel⟩

end Store

end LinkSummary
