import LinkSummary.Proofs.Store.Inheritance

/-!
# Stores with more live functions

Spreading liveness raises a store: some functions become live, and nothing else about the functions,
types and names changes. What holds of a store apart from liveness survives.
-/

namespace LinkSummary.Store

variable {s s' s'' : Store} {id : SymbolId} {f f' : FunctionSummary}

/-- A store whose functions are those of another, some of them marked live. -/
structure Raises (s s' : Store) : Prop where
  moduleName : s'.moduleName = s.moduleName
  types : s'.types = s.types
  symbols : s'.symbols = s.symbols
  computed : s.livenessComputed = true → s'.livenessComputed = true
  functions : ∀ id, s'.function? id = s.function? id ∨
    s'.function? id = (s.function? id).map (·.markLive)

namespace Raises

lemma refl (s : Store) : s.Raises s :=
  ⟨rfl, rfl, rfl, fun h => h, fun _ => .inl rfl⟩

lemma trans (h : s.Raises s') (h' : s'.Raises s'') : s.Raises s'' := by
  refine ⟨h'.moduleName.trans h.moduleName, h'.types.trans h.types, h'.symbols.trans h.symbols,
    fun hs => h'.computed (h.computed hs), ?_⟩
  intro id
  rcases h.functions id with heq | heq <;> rcases h'.functions id with heq' | heq'
  · exact .inl (heq'.trans heq)
  · exact .inr (by rw [heq', heq])
  · exact .inr (heq'.trans heq)
  · refine .inr ?_
    rw [heq', heq, Option.map_map]
    congr 1

lemma exists_function (h : s.Raises s') (hf : s'.function? id = some f') :
    ∃ f, s.function? id = some f ∧ (f' = f ∨ f' = f.markLive) := by
  rcases h.functions id with heq | heq
  · exact ⟨f', heq ▸ hf, .inl rfl⟩
  · rw [heq] at hf
    obtain ⟨f, hsome, rfl⟩ := Option.map_eq_some_iff.mp hf
    exact ⟨f, hsome, .inr rfl⟩

lemma exists_raised (h : s.Raises s') (hf : s.function? id = some f) :
    ∃ f', s'.function? id = some f' ∧ (f' = f ∨ f' = f.markLive) := by
  rcases h.functions id with heq | heq
  · exact ⟨f, heq.trans hf, .inl rfl⟩
  · exact ⟨f.markLive, by rw [heq, hf, Option.map_some], .inr rfl⟩

lemma definesFunction (h : s.Raises s') (id : SymbolId) :
    s'.definesFunction id = s.definesFunction id := by
  rw [Bool.eq_iff_iff, definesFunction_iff, definesFunction_iff]
  constructor
  · rintro ⟨f', hf'⟩
    obtain ⟨f, hf, -⟩ := h.exists_function hf'
    exact ⟨f, hf⟩
  · rintro ⟨f, hf⟩
    obtain ⟨f', hf', -⟩ := h.exists_raised hf
    exact ⟨f', hf'⟩

lemma isLive (h : s.Raises s') (hid : s.isLive id = true) : s'.isLive id = true := by
  obtain ⟨f, hf, hlive⟩ := isLive_iff.mp hid
  obtain ⟨f', hf', rfl | rfl⟩ := h.exists_raised hf
  · exact isLive_iff.mpr ⟨f', hf', hlive⟩
  · exact isLive_iff.mpr ⟨f.markLive, hf', rfl⟩

lemma wellFormed (h : s.Raises s') (hs : s.WellFormed) : s'.WellFormed where
  functions hf' := by
    obtain ⟨f, hf, rfl | rfl⟩ := h.exists_function hf'
    · exact h.symbols ▸ hs.functions hf
    · exact h.symbols ▸ ⟨(hs.functions hf).id_eq, (hs.functions hf).interned⟩
  types ht := by
    rw [type?, h.types] at ht
    exact h.symbols ▸ hs.types ht

lemma flagsKnown (h : s.Raises s') (hs : s.FlagsKnown) : s'.FlagsKnown := by
  rw [flagsKnown_iff] at hs ⊢
  intro id f' hf'
  obtain ⟨f, hf, rfl | rfl⟩ := h.exists_function hf'
  · exact hs id f' hf
  · have hknown := congrArg FunctionFlags.reserved (hs id f hf)
    simpa [FunctionFlags.known, FunctionSummary.markLive] using hknown

lemma checkVtables (h : s.Raises s') : s'.checkVtables = s.checkVtables :=
  checkVtables_congr h.types h.symbols

end Raises

/-! ### Marking one function -/

lemma function?_setLive (s : Store) (id id' : SymbolId) : (s.setLive id).function? id' =
    if id' = id then (s.function? id').map (·.markLive) else s.function? id' := by
  rw [setLive]
  split
  · exact IdMap.get?_modify _ _ _ _
  · rename_i hdead
    split
    · rename_i heq
      subst heq
      rw [isDead_iff] at hdead
      cases hf : s.function? id' with
      | none => rfl
      | some f =>
        -- a function that is not dead is live already
        have hlive : f.flags.live = true := by
          by_contra hnot
          exact hdead ⟨f, hf, by simpa [FunctionSummary.isLive] using hnot⟩
        obtain ⟨fid, debugName, ⟨live, preserved, fixedContents, reserved⟩, calls⟩ := f
        cases hlive
        rfl
    · rfl

lemma raises_setLive (s : Store) (id : SymbolId) : s.Raises (s.setLive id) := by
  have hrest : (s.setLive id) = { s with functions := (s.setLive id).functions } := by
    rw [setLive]
    split <;> rfl
  refine ⟨by rw [hrest], by rw [hrest], by rw [hrest], fun h => by rw [hrest]; exact h, ?_⟩
  intro id'
  rw [function?_setLive]
  split
  · exact .inr rfl
  · exact .inl rfl

lemma isLive_setLive {id' : SymbolId} : (s.setLive id).isLive id' = true ↔
    s.isLive id' = true ∨ id' = id ∧ s.definesFunction id' = true := by
  rw [isLive_iff, isLive_iff, definesFunction_iff, function?_setLive]
  by_cases heq : id' = id
  · rw [if_pos heq]
    constructor
    · rintro ⟨f', hf', -⟩
      obtain ⟨f, hf, -⟩ := Option.map_eq_some_iff.mp hf'
      exact .inr ⟨heq, f, hf⟩
    · rintro (⟨f, hf, -⟩ | ⟨-, f, hf⟩)
      · exact ⟨f.markLive, by rw [hf, Option.map_some], rfl⟩
      · exact ⟨f.markLive, by rw [hf, Option.map_some], rfl⟩
  · simp [heq]

lemma raises_markLivenessComputed (s : Store) : s.Raises s.markLivenessComputed :=
  ⟨rfl, rfl, rfl, fun _ => rfl, fun _ => .inl rfl⟩

end LinkSummary.Store
