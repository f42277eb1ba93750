import LinkSummary.Proofs.Program.Inheritance

/-!
# Programs with more definitions

Further definitions under free keys keep what a program has. Tables only become longer by what can
be inherited then, dispatch gains targets only, and so what was reachable stays reachable. Tables
that were continued before the definitions came end up like tables that are continued afterwards.
-/

namespace LinkSummary.Program

variable {κ : Type} {p p' q q' r : Program κ} {k x : κ} {i : Nat}

/-! ### Further definitions -/

/-- The definitions of a program, and those of another one under the keys left free. -/
def orElse (p p' : Program κ) : Program κ where
  functions k := (p.functions k).or (p'.functions k)
  types k := (p.types k).or (p'.types k)

lemma types_orElse_of_some {t : Tables κ} (ht : p.types k = some t) :
    (p.orElse r).types k = some t := by
  simp [orElse, ht]

lemma types_orElse_of_none (hk : p.types k = none) : (p.orElse r).types k = r.types k := by
  simp [orElse, hk]

/-- A continued table has the entries that were there, and after them inherited ones. -/
lemma Continues.types_orElse_of_some (h : p.Continues q) {t : Tables κ} (ht : p.types k = some t)
    (r : Program κ) : ∃ rest, (q.orElse r).types k = some { t with slots := t.slots ++ rest } := by
  obtain ⟨rest, hrest⟩ := h.types_some k t ht
  exact ⟨rest, Program.types_orElse_of_some hrest⟩

lemma Continues.types_orElse_of_none (h : p.Continues q) (hk : p.types k = none) (r : Program κ) :
    (q.orElse r).types k = (p.orElse r).types k := by
  rw [Program.types_orElse_of_none hk, Program.types_orElse_of_none (h.types_none k hk)]

lemma Continues.inherits_of_inherits_orElse (h : p.Continues q)
    (hx : (q.orElse r).Inherits k i x) : (p.orElse r).Inherits k i x := by
  have hmono : ∀ k t, p.types k = some t → (p.orElse r).types k = some t :=
    fun k t ht => Program.types_orElse_of_some ht
  induction hx with
  | @own k t i x ht hx =>
    cases hu : p.types k with
    | none =>
      rw [h.types_orElse_of_none hu] at ht
      exact .own ht hx
    | some u =>
      obtain ⟨rest, hrest⟩ := h.types_some k u hu
      rw [Program.types_orElse_of_some hrest, Option.some.injEq] at ht
      have hinherits : q.Inherits k i x := .own (ht ▸ hrest) hx
      exact ((h.inherits k i x).mp hinherits).mono hmono
  | @base k t b i x ht hle hbase _ ih =>
    cases hu : p.types k with
    | none =>
      rw [h.types_orElse_of_none hu] at ht
      exact .base ht hle hbase ih
    | some u =>
      obtain ⟨rest, hrest⟩ := h.types_orElse_of_some hu r
      rw [hrest, Option.some.injEq] at ht
      subst ht
      rw [List.length_append] at hle
      exact .base (hmono k u hu) (by omega) hbase ih

lemma Continues.inherits_orElse_of_inherits (h : p.Continues q)
    (hx : (p.orElse r).Inherits k i x) : (q.orElse r).Inherits k i x := by
  induction hx with
  | @own k t i x ht hx =>
    cases hu : p.types k with
    | none =>
      rw [← h.types_orElse_of_none hu] at ht
      exact .own ht hx
    | some u =>
      rw [Program.types_orElse_of_some hu, Option.some.injEq] at ht
      subst ht
      obtain ⟨rest, hrest⟩ := h.types_orElse_of_some hu r
      refine .own hrest ?_
      rw [List.getElem?_append_left (List.getElem?_eq_some_iff.mp hx).1]
      exact hx
  | @base k t b i x ht hle hbase hrest ih =>
    cases hu : p.types k with
    | none =>
      rw [← h.types_orElse_of_none hu] at ht
      exact .base ht hle hbase ih
    | some u =>
      obtain ⟨more, hmore⟩ := h.types_orElse_of_some hu r
      have hown := ht
      rw [Program.types_orElse_of_some hu, Option.some.injEq] at ht
      subst ht
      by_cases hshort : (u.slots ++ more).length ≤ i
      · exact .base hmore hshort hbase ih
      · -- the slot has been filled, and then with what is inherited there
        have hlt : i < (u.slots ++ more).length := by omega
        have hy : (q.orElse r).Inherits k i (u.slots ++ more)[i] :=
          .own hmore (List.getElem?_eq_getElem hlt)
        have hsame := (h.inherits_of_inherits_orElse hy).unique (.base hown hle hbase hrest)
        exact hsame ▸ hy

/-- To continue tables and to define further ones may be done in either order. -/
theorem Continues.orElse (h : p.Continues q) (r : Program κ) :
    (p.orElse r).Continues (q.orElse r) where
  functions := by
    funext k
    rw [Program.orElse, Program.orElse, h.functions]
  types_none k hk := by
    obtain ⟨hp, hr⟩ := Option.or_eq_none_iff.mp hk
    rw [h.types_orElse_of_none hp]
    exact hk
  types_some k t ht := by
    cases hu : p.types k with
    | none => exact ⟨[], by rw [h.types_orElse_of_none hu, ht, List.append_nil]⟩
    | some u =>
      rw [Program.types_orElse_of_some hu, Option.some.injEq] at ht
      exact ht ▸ h.types_orElse_of_some hu r
  inherits _ _ _ := ⟨h.inherits_of_inherits_orElse, h.inherits_orElse_of_inherits⟩

lemma inherits_withFunctions_iff {functions : κ → Option (Function κ)} :
    Inherits { p with functions } k i x ↔ p.Inherits k i x :=
  ⟨Inherits.mono fun _ _ ht => ht, Inherits.mono fun _ _ ht => ht⟩

/-- Tables are continued without regard to the functions. -/
lemma Continues.withFunctions (h : p.Continues q) (functions : κ → Option (Function κ)) :
    Continues { p with functions } { q with functions } := by
  refine ⟨rfl, h.types_none, h.types_some, ?_⟩
  intro k i x
  exact (inherits_withFunctions_iff.trans (h.inherits k i x)).trans inherits_withFunctions_iff.symm

/-! ### Programs within larger ones -/

/-- Another program has the same definitions and others, and its functions may have more calls. -/
structure Within (p q : Program κ) : Prop where
  functions : ∀ {k f}, p.functions k = some f →
    ∃ f', q.functions k = some f' ∧ f'.flags = f.flags ∧ f.calls.Sublist f'.calls
  types : ∀ {k t}, p.types k = some t → q.types k = some t

lemma Within.trans (h : p.Within q) (h' : q.Within r) : p.Within r := by
  refine ⟨?_, fun ht => h'.types (h.types ht)⟩
  intro k f hf
  obtain ⟨f', hf', hflags, hcalls⟩ := h.functions hf
  obtain ⟨f'', hf'', hflags', hcalls'⟩ := h'.functions hf'
  exact ⟨f'', hf'', hflags'.trans hflags, hcalls.trans hcalls'⟩

lemma within_orElse (p r : Program κ) : p.Within (p.orElse r) := by
  refine ⟨?_, fun ht => types_orElse_of_some ht⟩
  intro k f hf
  exact ⟨f, by simp [orElse, hf], rfl, List.Sublist.refl _⟩

lemma prefix_of_getElem? {xs ys : List κ} (h : ∀ (i : Nat) x, xs[i]? = some x → ys[i]? = some x) :
    xs <+: ys := by
  rw [List.prefix_iff_getElem?]
  intro i hi
  exact h i _ (List.getElem?_eq_getElem hi)

/-- Continued tables are longer in the larger program, and agree where both have entries. -/
theorem Within.types_of_continues (h : p.Within p') (hq : p.Continues q) (hq' : p'.Continues q')
    (hcomplete : q'.Complete) {t : Tables κ} (ht : q.types k = some t) :
    ∃ t', q'.types k = some t' ∧ t'.base = t.base ∧ t'.witnesses = t.witnesses ∧
      t.slots <+: t'.slots := by
  obtain ⟨u, hu, htu, -⟩ := hq.exists_types ht
  obtain ⟨rest, hrest⟩ := hq'.types_some k u (h.types hu)
  refine ⟨_, hrest, by rw [htu], by rw [htu], ?_⟩
  apply prefix_of_getElem?
  intro i x hx
  have hinherits := (hq.inherits k i x).mp (.own ht hx)
  exact (hq'.getElem?_iff hcomplete hrest).mpr (hinherits.mono fun _ _ => h.types)

lemma Within.functions_of_continues (h : p.Within p') (hq : p.Continues q)
    (hq' : p'.Continues q') {f : Function κ} (hf : q.functions k = some f) :
    ∃ f', q'.functions k = some f' ∧ f'.flags = f.flags ∧ f.calls.Sublist f'.calls := by
  rw [hq.functions] at hf
  rw [hq'.functions]
  exact h.functions hf

/-- What is reachable stays so in the larger program. -/
theorem Within.reachable (h : p.Within p') (hq : p.Continues q) (hq' : p'.Continues q')
    (hcomplete : q'.Complete) (hk : q.Reachable k) : q'.Reachable k := by
  have hembeds : q.Embeds id q' := by
    constructor
    · intro k f hf
      obtain ⟨f', hf', -, hcalls⟩ := h.functions_of_continues hq hq' hf
      refine ⟨f', hf', ?_⟩
      intro call hcall
      rw [Call.map_id]
      exact hcalls.subset hcall
    · intro k t ht
      obtain ⟨t', ht', hbase, hwitnesses, hslots⟩ := h.types_of_continues hq hq' hcomplete ht
      refine ⟨t', ht', by simp [hbase], by simpa using hslots, ?_⟩
      intro requirement implementation hwitness
      rw [hwitnesses]
      exact hwitness
  refine hembeds.reachable ?_ hk
  rintro k ⟨f, hf, hroot⟩
  obtain ⟨f', hf', hflags, -⟩ := h.functions_of_continues hq hq' hf
  exact IsRoot.reachable ⟨f', hf', hflags ▸ hroot⟩

/-! ### Programs that differ in live flags -/

/-- Two programs with the same definitions, in which other functions may be live. -/
structure SameButLive (p q : Program κ) : Prop where
  functions : ∀ k, (p.functions k).map (Function.withLive false) =
    (q.functions k).map (Function.withLive false)
  types : p.types = q.types

lemma SameButLive.symm (h : p.SameButLive q) : q.SameButLive p :=
  ⟨fun k => (h.functions k).symm, h.types.symm⟩

lemma SameButLive.functions_withLive (h : p.SameButLive q) (live : Bool) (k : κ) :
    (p.functions k).map (Function.withLive live) =
      (q.functions k).map (Function.withLive live) := by
  have hover : ∀ f : Option (Function κ),
      (f.map (Function.withLive false)).map (Function.withLive live) =
        f.map (Function.withLive live) := by
    intro f
    cases f <;> rfl
  rw [← hover, h.functions, hover]

lemma SameButLive.embeds (h : p.SameButLive q) : p.Embeds id q := by
  constructor
  · intro k f hf
    have hsame := h.functions k
    rw [hf, Option.map_some] at hsame
    obtain ⟨f', hf', heq⟩ := Option.map_eq_some_iff.mp hsame.symm
    refine ⟨f', hf', ?_⟩
    have hcalls : (f'.withLive false).calls = (f.withLive false).calls := congrArg _ heq
    intro call hcall
    exact hcalls ▸ hcall
  · intro k t ht
    refine ⟨t, h.types ▸ ht, by simp, by simp, fun _ _ hwitness => hwitness⟩

lemma SameButLive.reachable (h : p.SameButLive q) (hroots : ∀ k, p.IsRoot k → q.Reachable k)
    (hk : p.Reachable k) : q.Reachable k :=
  h.embeds.reachable hroots hk

/-- Liveness spreads alike from roots that can be reached from each other. -/
theorem SameButLive.spread_eq (h : p.SameButLive q) (hroots : ∀ k, p.IsRoot k → q.Reachable k)
    (hroots' : ∀ k, q.IsRoot k → p.Reachable k) : p.spread = q.spread := by
  apply Program.ext
  · funext k
    have hreach : p.Reachable k ↔ q.Reachable k :=
      ⟨h.reachable hroots, h.symm.reachable hroots'⟩
    show (p.functions k).map _ = (q.functions k).map _
    rw [decide_eq_decide.mpr hreach]
    exact h.functions_withLive _ k
  · exact h.types

/-! ### Liveness spread early -/

lemma isRoot_congr (h : p.functions = q.functions) : p.IsRoot k ↔ q.IsRoot k := by
  rw [IsRoot, IsRoot, h]

lemma isRoot_orElse_iff :
    (p.orElse r).IsRoot k ↔ p.IsRoot k ∨ p.functions k = none ∧ r.IsRoot k := by
  simp only [IsRoot, orElse]
  cases p.functions k with
  | none => simp
  | some f => simp

lemma sameButLive_spread_orElse (p r : Program κ) (k : κ) :
    ((p.spread.orElse r).functions k).map (Function.withLive false) =
      ((p.orElse r).functions k).map (Function.withLive false) := by
  show (((p.functions k).map _).or (r.functions k)).map _ =
    ((p.functions k).or (r.functions k)).map _
  cases p.functions k <;> rfl

/-- Liveness that was spread before further definitions came does not go beyond what it comes to
afterwards, so it does not matter whether it was. -/
theorem Continues.spread_orElse (h : p.Continues q) {r s s' : Program κ}
    (hs : (p.orElse r).Continues s) (hs' : (q.spread.orElse r).Continues s')
    (hcomplete : s.Complete) (hcomplete' : s'.Complete) : s'.spread = s.spread := by
  have hstaged : Continues { p.orElse r with functions := (q.spread.orElse r).functions } s' :=
    ((h.orElse r).withFunctions _).trans hs'
  have hfunctions : s.functions = (q.orElse r).functions :=
    hs.functions.trans (h.orElse r).functions.symm
  obtain rfl : s' = { s with functions := (q.spread.orElse r).functions } :=
    hstaged.unique (hs.withFunctions _) hcomplete' hcomplete
  refine SameButLive.spread_eq ⟨?_, rfl⟩ ?_ ?_
  · intro k
    rw [hfunctions]
    exact sameButLive_spread_orElse q r k
  · intro k hroot
    have hroot : (q.spread.orElse r).IsRoot k := hroot
    rw [isRoot_orElse_iff] at hroot
    rcases hroot with hroot | ⟨hnone, hroot⟩
    · exact (within_orElse p r).reachable h hs hcomplete (reachable_of_isRoot_spread hroot)
    · apply IsRoot.reachable
      rw [isRoot_congr hfunctions, isRoot_orElse_iff]
      exact .inr ⟨functions_spread_eq_none_iff.mp hnone, hroot⟩
  · intro k hroot
    rw [isRoot_congr hfunctions, isRoot_orElse_iff] at hroot
    apply IsRoot.reachable
    show (q.spread.orElse r).IsRoot k
    rw [isRoot_orElse_iff]
    rcases hroot with hroot | ⟨hnone, hroot⟩
    · exact .inl hroot.spread
    · exact .inr ⟨functions_spread_eq_none_iff.mpr hnone, hroot⟩

end LinkSummary.Program
