import LinkSummary.Proofs.Liveness.Settled
import LinkSummary.Proofs.Query

/-!
# Answers about live callers

An optimizer removes dead functions and dead table entries, and binds calls that have one live
target. After a merge this never takes away what a live function may call, whether the merged store
is asked or what is read back from its file.
-/

namespace LinkSummary

namespace Store

variable {s : Store} {edge : CallEdge} {id target : SymbolId} {f : FunctionSummary}
  {dead : List SymbolId} {entries : List DeadEntry}

/-! ### What is listed as dead -/

/-- The dead functions are listed, once liveness is computed. -/
lemma exists_deadFunctions_eq_ok (hs : s.WellFormed) (hcomputed : s.livenessComputed = true) :
    ∃ dead, s.deadFunctions = .ok dead ∧ ∀ id, id ∈ dead ↔ s.isDead id = true := by
  refine ⟨(s.functions.values.filter (!·.isLive)).map (·.id), ?_, fun id => ?_⟩
  · rw [deadFunctions, requireMerged, hcomputed]
    rfl
  · rw [isDead_iff]
    simp only [List.mem_map, List.mem_filter, IdMap.mem_values_iff, Bool.not_eq_true']
    constructor
    · rintro ⟨f, ⟨⟨key, hf⟩, hnot⟩, rfl⟩
      exact ⟨f, (hs.functions hf).id_eq ▸ hf, hnot⟩
    · rintro ⟨f, hf, hnot⟩
      exact ⟨f, ⟨⟨id, hf⟩, hnot⟩, (hs.functions hf).id_eq⟩

lemma isDead_of_mem_deadEntriesOf {t : TypeSummary} {entry : DeadEntry}
    (h : entry ∈ s.deadEntriesOf t) : s.isDead entry.implementation = true := by
  rcases List.mem_append.mp h with h | h
  · obtain ⟨⟨implementation, slot⟩, -, h⟩ := List.mem_filterMap.mp h
    obtain ⟨hdead, heq⟩ := Option.ite_none_right_eq_some.mp h
    cases heq
    exact hdead
  · obtain ⟨⟨requirement, implementation⟩, -, h⟩ := List.mem_filterMap.mp h
    obtain ⟨hdead, heq⟩ := Option.ite_none_right_eq_some.mp h
    cases heq
    exact hdead

/-- Entries of dead functions are listed, once liveness is computed. -/
lemma exists_deadEntries_eq_ok (hcomputed : s.livenessComputed = true) :
    ∃ entries, s.deadEntries = .ok entries ∧
      ∀ entry ∈ entries, s.isDead entry.implementation = true := by
  refine ⟨s.types.values.flatMap s.deadEntriesOf, ?_, fun entry hentry => ?_⟩
  · rw [deadEntries, requireMerged, hcomputed]
    rfl
  · obtain ⟨t, -, hentry⟩ := List.mem_flatMap.mp hentry
    exact isDead_of_mem_deadEntriesOf hentry

/-! ### Answers that spare a call -/

/-- Lists of dead functions and dead entries, and the binding of a call, take away none of the
targets of the call. -/
structure Spares (s : Store) (dead : List SymbolId) (entries : List DeadEntry) (edge : CallEdge) :
    Prop where
  functions : ∀ target ∈ s.targetsOf edge, target ∉ dead
  entries : ∀ target ∈ s.targetsOf edge, ∀ entry ∈ entries, entry.implementation ≠ target
  /-- As long as ids can tell the names apart, a direct call is bound to its callee. -/
  bound : s.symbols.size < 2 ^ 32 → edge.kind = .direct → edge.preserved = false →
    s.devirtualize edge = .ok (some edge.callee)
  preserved : edge.preserved = true → s.devirtualize edge = .ok none
  ambiguous : ∀ target ∈ s.targetsOf edge, ∀ other ∈ s.targetsOf edge, target ≠ other →
    s.definesFunction target = true → s.definesFunction other = true →
      s.devirtualize edge = .ok none

/-- What dead functions and entries there are is told, and no call of a live function suffers. -/
def SparesLiveCalls (s : Store) : Prop :=
  ∃ dead entries, s.deadFunctions = .ok dead ∧ s.deadEntries = .ok entries ∧
    ∀ id f, s.function? id = some f → f.isLive = true → ∀ edge ∈ f.calls,
      s.Spares dead entries edge

/-- Liveness is computed in a store: no target of a call in a live function is dead. -/
structure Analyzed (s : Store) : Prop where
  wellFormed : s.WellFormed
  computed : s.livenessComputed = true
  calleesDefined : s.symbols.size < 2 ^ 32 → s.CalleesDefined
  closed : ∀ id f, s.function? id = some f → f.isLive = true → ∀ edge ∈ f.calls,
    ∀ target ∈ s.targetsOf edge, s.isDead target = false

/-- There is an answer for every call. -/
lemma exists_devirtualize_eq_ok (hcomputed : s.livenessComputed = true)
    (hcallee : s.symbols.contains edge.callee = true) :
    ∃ answer, s.devirtualize edge = .ok answer := by
  rw [devirtualize, requireMerged, hcomputed, requireInterned, hcallee]
  cases edge.preserved with
  | true => exact ⟨none, rfl⟩
  | false => exact ⟨_, rfl⟩

/-- A call with two live targets is not bound. -/
lemma devirtualize_eq_ok_none (hcomputed : s.livenessComputed = true)
    (hcallee : s.symbols.contains edge.callee = true) {other : SymbolId}
    (htarget : target ∈ s.targetsOf edge) (hother : other ∈ s.targetsOf edge)
    (hne : target ≠ other) (hlive : s.isLive target = true) (hlive' : s.isLive other = true) :
    s.devirtualize edge = .ok none := by
  obtain ⟨answer, hanswer⟩ := exists_devirtualize_eq_ok hcomputed hcallee
  cases answer with
  | none => exact hanswer
  | some g =>
    obtain ⟨-, -, -, -, -, hothers⟩ := devirtualize_eq_ok_some_iff.mp hanswer
    have hfirst : target = g := by
      by_contra hnot
      rw [hothers target htarget hnot] at hlive
      cases hlive
    have hsecond : other = g := by
      by_contra hnot
      rw [hothers other hother hnot] at hlive'
      cases hlive'
    exact absurd (hfirst.trans hsecond.symm) hne

lemma devirtualize_direct (hcomputed : s.livenessComputed = true)
    (hcallee : s.symbols.contains edge.callee = true) (hkind : edge.kind = .direct)
    (hopen : edge.preserved = false) (hlive : s.isLive edge.callee = true) :
    s.devirtualize edge = .ok (some edge.callee) := by
  have htargets : s.targetsOf edge = [edge.callee] := by
    rw [targetsOf, hkind]
    rfl
  rw [devirtualize_eq_ok_some_iff, htargets]
  refine ⟨hcomputed, hcallee, hopen, List.mem_singleton_self _, hlive, ?_⟩
  intro target htarget hne
  exact absurd (List.mem_singleton.mp htarget) hne

lemma devirtualize_preserved (hcomputed : s.livenessComputed = true)
    (hcallee : s.symbols.contains edge.callee = true) (hpreserved : edge.preserved = true) :
    s.devirtualize edge = .ok none := by
  rw [devirtualize, requireMerged, hcomputed, requireInterned, hcallee, hpreserved]
  rfl

/-- The calls of a live function are spared. -/
lemma Analyzed.spares (h : s.Analyzed) (hdead : ∀ id ∈ dead, s.isDead id = true)
    (hentries : ∀ entry ∈ entries, s.isDead entry.implementation = true)
    (hf : s.function? id = some f) (hlive : f.isLive = true) (hedge : edge ∈ f.calls) :
    s.Spares dead entries edge := by
  have hcallee : s.symbols.contains edge.callee = true := h.wellFormed.contains_callee hf hedge
  have htargets := h.closed id f hf hlive edge hedge
  have htarget_live : ∀ target ∈ s.targetsOf edge, s.definesFunction target = true →
      s.isLive target = true := fun target htarget =>
    isDead_eq_false_iff.mp (htargets target htarget)
  constructor
  case functions =>
    intro target htarget hmem
    have hkilled := hdead target hmem
    rw [htargets target htarget] at hkilled
    cases hkilled
  case entries =>
    rintro target htarget entry hentry rfl
    have hkilled := hentries entry hentry
    rw [htargets _ htarget] at hkilled
    cases hkilled
  case bound =>
    intro hsize hkind hopen
    have hdef := h.calleesDefined hsize hf edge hedge (by rw [hkind]; decide)
    have hmem : edge.callee ∈ s.targetsOf edge := by
      rw [targetsOf, hkind]
      exact List.mem_singleton_self _
    exact devirtualize_direct h.computed hcallee hkind hopen (htarget_live _ hmem hdef)
  case preserved => exact devirtualize_preserved h.computed hcallee
  case ambiguous =>
    intro target htarget other hother hne hdef hdef'
    exact devirtualize_eq_ok_none h.computed hcallee htarget hother hne
      (htarget_live target htarget hdef) (htarget_live other hother hdef')

theorem Analyzed.sparesLiveCalls (h : s.Analyzed) : s.SparesLiveCalls := by
  obtain ⟨dead, hdead, hmem⟩ := exists_deadFunctions_eq_ok h.wellFormed h.computed
  obtain ⟨entries, hentries, hentry⟩ := exists_deadEntries_eq_ok h.computed
  exact ⟨dead, entries, hdead, hentries, fun id f hf hlive edge hedge =>
    h.spares (fun id => (hmem id).mp) hentry hf hlive hedge⟩

/-! ### Without readable names -/

lemma function?_withoutDebugNames (s : Store) (id : SymbolId) :
    s.withoutDebugNames.function? id = (s.function? id).map ({ · with debugName := none }) :=
  IdMap.get?_map _ _ _

/-- Readable names do not matter for liveness. -/
lemma Analyzed.withoutDebugNames (h : s.Analyzed) : s.withoutDebugNames.Analyzed := by
  have hfunction : ∀ {id f}, s.withoutDebugNames.function? id = some f →
      ∃ g, s.function? id = some g ∧ f = { g with debugName := none } := by
    intro id f hf
    rw [function?_withoutDebugNames] at hf
    obtain ⟨g, hg, rfl⟩ := Option.map_eq_some_iff.mp hf
    exact ⟨g, hg, rfl⟩
  have hdead : ∀ id, s.withoutDebugNames.isDead id = s.isDead id := by
    intro id
    rw [isDead, function?_withoutDebugNames, Option.any_map]
    rfl
  have hdef : ∀ id, s.withoutDebugNames.definesFunction id = s.definesFunction id := by
    intro id
    rw [definesFunction, IdMap.contains, ← function?, function?_withoutDebugNames,
      Option.isSome_map]
    rfl
  constructor
  case wellFormed =>
    refine ⟨fun hf => ?_, h.wellFormed.types⟩
    obtain ⟨g, hg, rfl⟩ := hfunction hf
    exact ⟨(h.wellFormed.functions hg).id_eq, (h.wellFormed.functions hg).interned⟩
  case computed => exact h.computed
  case calleesDefined =>
    intro hsize id f hf edge hedge hkind
    obtain ⟨g, hg, rfl⟩ := hfunction hf
    rw [hdef]
    exact h.calleesDefined hsize hg edge hedge hkind
  case closed =>
    intro id f hf hlive edge hedge target htarget
    obtain ⟨g, hg, rfl⟩ := hfunction hf
    have htargets : s.withoutDebugNames.targetsOf edge = s.targetsOf edge :=
      congrArg DispatchTargets.implementations (DispatchIndex.targets_congr rfl _ _)
    rw [hdead]
    exact h.closed id g hg hlive edge hedge target (htargets ▸ htarget)

end Store

namespace Merged

variable {inputs : List Store}

lemma analyzed_ofInputs (inputs : List Store) (traced : Option String) :
    (ofInputs inputs traced).store.Analyzed := by
  have hunion := wellFormed_combine inputs
  have hraises := raises_propagate hunion traced
  have hs := hraises.wellFormed hunion
  have hsettled := Spread.settled_ofStore hunion (combine inputs).trace (combine inputs).diagnostics
  refine ⟨hs, rfl, fun hsize => ?_, ?_⟩
  · rw [ofInputs, hraises.symbols] at hsize
    exact hraises.calleesDefined (Combination.calleesDefined_ofInputs inputs hsize)
  · intro id f hf hlive edge hedge target htarget
    refine Store.isDead_eq_false_iff.mpr fun hdef => ?_
    refine hsettled.closed id target (Store.isLive_iff.mpr ⟨f, hf, hlive⟩) ?_
    exact ⟨hdef, f, hf, edge, hedge, (DispatchIndex.mem_targets_ofStore hs.typesFiled).mp htarget⟩

/-- The file of a merge of stores with known flags is read back. -/
lemma decode_encode_ofInputs (hflags : ∀ s ∈ inputs, s.FlagsKnown) (traced : Option String)
    (embedDebugNames : Bool) :
    let s := (ofInputs inputs traced).store
    (s.encode embedDebugNames).length < 2 ^ 64 → Store.decode (s.encode embedDebugNames) =
      .ok (if embedDebugNames then s else s.withoutDebugNames) := by
  intro s hlen
  have hunion := wellFormed_combine inputs
  have hraises : (combine inputs).store.Raises s := raises_propagate hunion traced
  have hvtables : s.checkVtables = .ok () := by
    rw [hraises.checkVtables, Store.checkVtables_eq_ok_iff]
    exact Combination.slotsCoverBases_ofInputs inputs
  rw [(hraises.wellFormed hunion).decode_encode
    (hraises.flagsKnown (Combination.flagsKnown_ofInputs hflags)) embedDebugNames hlen, hvtables]
  rfl

/-- After a merge of stores with known flags, the answers about the merged store spare the calls of
its live functions, and so do those about the store which its file is read back as. -/
theorem sparesLiveCalls_ofInputs (hflags : ∀ s ∈ inputs, s.FlagsKnown) (traced : Option String) :
    let s := (ofInputs inputs traced).store
    s.SparesLiveCalls ∧ ((s.encode true).length < 2 ^ 64 → ∀ embedDebugNames,
      ∃ s', Store.decode (s.encode embedDebugNames) = .ok s' ∧ s'.SparesLiveCalls) := by
  intro s
  have hanalyzed : s.Analyzed := analyzed_ofInputs inputs traced
  refine ⟨hanalyzed.sparesLiveCalls, fun hlen embedDebugNames => ?_⟩
  refine ⟨_, decode_encode_ofInputs hflags traced embedDebugNames
    (lt_of_le_of_lt (s.length_encode_le embedDebugNames) hlen), ?_⟩
  cases embedDebugNames with
  | true => exact hanalyzed.sparesLiveCalls
  | false => exact hanalyzed.withoutDebugNames.sparesLiveCalls

/-- In the merge of a program with a library one function is dead, and the overridden method that
the program calls is not. -/
theorem sparesLiveCalls_ofInputs_override :
    let library := Store.performAll "library" [.build (.recordFunction "B.f" {}),
      .build (.recordFunction "unused" {}), .build (.recordType "B" none ["B.f", "unused"])]
    let program := Store.performAll "program" [
      .build (.recordFunction "main" { preserved := true }),
      .build (.recordCall ⟨1⟩ "library.B.f" .virtual false), .build (.recordFunction "C.f" {}),
      .build (.recordType "C" (some "library.B") ["C.f"])]
    let s := (ofInputs [library, program]).store
    s.deadFunctions = .ok [⟨2⟩] ∧ s.SparesLiveCalls ∧
      ∃ s', Store.decode (s.encode false) = .ok s' ∧ s'.SparesLiveCalls := by
  intro library program s
  have hflags : ∀ s ∈ [library, program], s.FlagsKnown := by
    unfold Store.FlagsKnown
    decide +kernel
  have hspares := sparesLiveCalls_ofInputs hflags none
  exact ⟨by decide +kernel, hspares.1, hspares.2 (by decide +kernel) false⟩

end Merged

end LinkSummary
