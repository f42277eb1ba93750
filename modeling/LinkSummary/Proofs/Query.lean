import LinkSummary.Proofs.Merged
import LinkSummary.Query

/-!
# What an optimizer may rely on

A call is bound to a function if that is the one live function which the call may reach. What the
store does not define is not live either, but may run all the same.
-/

namespace LinkSummary

namespace Store

variable {s : Store} {edge : CallEdge} {f target : SymbolId}

/-- What a call may reach, in increasing order. -/
def targetsOf (s : Store) (edge : CallEdge) : List SymbolId :=
  ((DispatchIndex.ofStore s).targets s edge.kind edge.callee).implementations

lemma nodup_targetsOf (s : Store) (edge : CallEdge) : (s.targetsOf edge).Nodup := by
  rw [targetsOf]
  cases edge.kind with
  | direct => exact List.nodup_cons.mpr ⟨List.not_mem_nil, List.nodup_nil⟩
  | virtual => exact nodup_sortedIds _
  | witness => exact nodup_sortedIds _

lemma sole_eq_some_iff {α : Type} {a : α} {xs : List α} : sole xs = some a ↔ xs = [a] := by
  match xs with
  | [] => simp [sole]
  | [b] => simp [sole]
  | b :: c :: xs => simp [sole]

/-- A list without repetitions has one element if all its elements are the same. -/
lemma eq_singleton_of_nodup {α : Type} {a : α} {xs : List α} (h : xs.Nodup) (ha : a ∈ xs)
    (hall : ∀ b ∈ xs, b = a) : xs = [a] := by
  match xs with
  | [] => cases ha
  | [b] => rw [hall b List.mem_cons_self]
  | b :: c :: xs =>
    have hb := hall b List.mem_cons_self
    have hc := hall c (List.mem_cons_of_mem _ List.mem_cons_self)
    have hnot : b ∉ c :: xs := (List.nodup_cons.mp h).1
    rw [hb, hc] at hnot
    exact absurd List.mem_cons_self hnot

lemma sole_filter_eq_some_iff {α : Type} {p : α → Bool} {a : α} {xs : List α} (h : xs.Nodup) :
    sole (xs.filter p) = some a ↔ a ∈ xs ∧ p a = true ∧ ∀ b ∈ xs, b ≠ a → p b = false := by
  rw [sole_eq_some_iff]
  constructor
  · intro hfilter
    have ha : a ∈ xs.filter p := hfilter ▸ List.mem_singleton_self a
    obtain ⟨hmem, hp⟩ := List.mem_filter.mp ha
    refine ⟨hmem, hp, ?_⟩
    intro b hb hne
    by_contra hnot
    have hin : b ∈ xs.filter p := List.mem_filter.mpr ⟨hb, Bool.eq_true_of_not_eq_false hnot⟩
    rw [hfilter, List.mem_singleton] at hin
    exact hne hin
  · rintro ⟨hmem, hp, hothers⟩
    refine eq_singleton_of_nodup (h.filter p) (List.mem_filter.mpr ⟨hmem, hp⟩) fun b hb => ?_
    obtain ⟨hb, hpb⟩ := List.mem_filter.mp hb
    by_contra hne
    rw [hothers b hb hne] at hpb
    cases hpb

/-- A call is bound to the only live function among its targets, unless the call is preserved. -/
theorem devirtualize_eq_ok_some_iff : s.devirtualize edge = .ok (some f) ↔
    s.livenessComputed = true ∧ s.symbols.contains edge.callee = true ∧ edge.preserved = false ∧
      f ∈ s.targetsOf edge ∧ s.isLive f = true ∧
      ∀ target ∈ s.targetsOf edge, target ≠ f → s.isLive target = false := by
  rw [← sole_filter_eq_some_iff (s.nodup_targetsOf edge), devirtualize, requireMerged,
    requireInterned]
  cases s.livenessComputed with
  | false => simp [Bind.bind, Except.bind]
  | true =>
    cases s.symbols.contains edge.callee with
    | false => simp [Bind.bind, Except.bind]
    | true =>
      cases edge.preserved with
      | true => simp [Bind.bind, Except.bind, Pure.pure, Except.pure]
      | false => simp [Bind.bind, Except.bind, Pure.pure, Except.pure, targetsOf]

/-- When a call is bound, its other targets are not live. They are known to be dead exactly if the
store defines all targets: what it does not define is passed over here, although `deadEntries` takes
it for live. -/
theorem isDead_targets_iff_of_devirtualize (h : s.devirtualize edge = .ok (some f)) :
    (∀ target ∈ s.targetsOf edge, target ≠ f → s.isLive target = false) ∧
      ((∀ target ∈ s.targetsOf edge, target ≠ f → s.isDead target = true) ↔
        ∀ target ∈ s.targetsOf edge, s.definesFunction target = true) := by
  obtain ⟨-, -, -, -, hlive, hothers⟩ := devirtualize_eq_ok_some_iff.mp h
  refine ⟨hothers, ?_, ?_⟩
  · intro hdead target htarget
    by_cases heq : target = f
    · exact heq ▸ definesFunction_of_isLive hlive
    · exact (isDead_iff_not_isLive.mp (hdead target htarget heq)).1
  · intro hdefined target htarget hne
    refine isDead_iff_not_isLive.mpr ⟨hdefined target htarget, ?_⟩
    rw [hothers target htarget hne]
    exact Bool.false_ne_true

/-- A call through a class whose subclass has a dead override is bound to the other. -/
theorem isDead_override_of_devirtualize :
    let s := performAll "app" [.build (.recordFunction "B.f" { live := true }),
      .build (.recordFunction "C.f" {}), .build (.recordType "B" none ["B.f"]),
      .build (.recordType "C" (some "B") ["C.f"]), .markLivenessComputed]
    s.devirtualize ⟨⟨1⟩, .virtual, false⟩ = .ok (some ⟨1⟩) ∧
      ⟨2⟩ ∈ s.targetsOf ⟨⟨1⟩, .virtual, false⟩ ∧ s.isDead ⟨2⟩ = true := by
  intro s
  have hbound : s.devirtualize ⟨⟨1⟩, .virtual, false⟩ = .ok (some ⟨1⟩) := by decide +kernel
  have htarget : ⟨2⟩ ∈ s.targetsOf ⟨⟨1⟩, .virtual, false⟩ := by decide +kernel
  have hdead := (isDead_targets_iff_of_devirtualize hbound).2.mpr (by decide +kernel)
  exact ⟨hbound, htarget, hdead ⟨2⟩ htarget (by decide)⟩

/-- A merge may bind a call to a function although a subclass has an override that no input
defines. -/
theorem exists_undefined_target_of_devirtualize :
    let s := (Merged.ofInputs [performAll "app" [
      .build (.recordFunction "main" { preserved := true }), .build (.recordFunction "B.f" {}),
      .build (.recordCall ⟨1⟩ "B.f" .virtual false), .build (.recordType "B" none ["B.f"]),
      .build (.recordType "C" (some "B") ["ext.C.f"])]]).store
    s.livenessComputed = true ∧ s.devirtualize ⟨⟨2⟩, .virtual, false⟩ = .ok (some ⟨2⟩) ∧
      ⟨5⟩ ∈ s.targetsOf ⟨⟨2⟩, .virtual, false⟩ ∧ s.definesFunction ⟨5⟩ = false := by
  decide +kernel

end Store

end LinkSummary
