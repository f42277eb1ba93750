import LinkSummary.Merged
import LinkSummary.Proofs.Binary.RoundTrip
import LinkSummary.Proofs.Liveness.Reachability
import LinkSummary.Proofs.Merge.Union

/-!
# What a merge yields

Whatever its inputs are, a merge is a well-formed store with complete vtables, in which the live
functions are those that can be reached. Spreading liveness again changes nothing else.
-/

namespace LinkSummary

namespace Store

lemma Raises.calleesDefined {s s' : Store} (h : s.Raises s') (hs : s.CalleesDefined) :
    s'.CalleesDefined := by
  intro id f' hf' edge hedge hkind
  rw [h.definesFunction]
  obtain ⟨f, hf, rfl | rfl⟩ := h.exists_function hf'
  · exact hs hf edge hedge hkind
  · exact hs hf edge hedge hkind

end Store

namespace Merged

variable {m : Merged}

lemma raises_propagate (hm : m.store.WellFormed) (traced : Option String) :
    m.store.Raises (m.propagate traced).2.store :=
  Spread.raises_ofStore hm m.trace m.diagnostics

/-- Spread liveness several times, each time with a name to be traced or none. -/
def propagateAll (m : Merged) (traced : List (Option String)) : Merged :=
  traced.foldl (fun m name => (m.propagate name).2) m

lemma raises_propagateAll (hm : m.store.WellFormed) (traced : List (Option String)) :
    m.store.Raises (m.propagateAll traced).store := by
  induction traced generalizing m with
  | nil => exact .refl _
  | cons name traced ih =>
    have hfirst := raises_propagate hm name
    exact hfirst.trans (ih (hfirst.wellFormed hm))

lemma wellFormed_combine (inputs : List Store) : (combine inputs).store.WellFormed :=
  Combination.wellFormed_ofInputs inputs

/-- After a merge the live functions are those that calls lead to, in any number of steps, from a
function of the union that is preserved or live. -/
theorem isLive_propagate_combine_iff (inputs : List Store) (traced : Option String)
    (id : SymbolId) :
    ((combine inputs).propagate traced).2.store.isLive id = true ↔
      (combine inputs).store.Reachable id :=
  Spread.isLive_ofStore_iff (wellFormed_combine inputs) _ _

/-- A merge of stores with known flags is a valid summary, however damaged the inputs are: it is
well-formed, its vtables are complete, and it reads back from its file. If ids can tell its names
apart, every direct and virtual call is to a defined function. -/
theorem valid_propagateAll_combine {inputs : List Store} (hflags : ∀ s ∈ inputs, s.FlagsKnown)
    (traced : List (Option String)) :
    let s := ((combine inputs).propagateAll traced).store
    s.WellFormed ∧ (s.symbols.size < 2 ^ 32 → s.CalleesDefined) ∧ s.checkVtables = .ok () ∧
      ((s.encode true).length < 2 ^ 64 → Store.decode (s.encode true) = .ok s) := by
  intro s
  have hunion := wellFormed_combine inputs
  have hraises : (combine inputs).store.Raises s := raises_propagateAll hunion traced
  have hs : s.WellFormed := hraises.wellFormed hunion
  have hknown : s.FlagsKnown := hraises.flagsKnown (Combination.flagsKnown_ofInputs hflags)
  have hvtables : s.checkVtables = .ok () := by
    rw [hraises.checkVtables, Store.checkVtables_eq_ok_iff]
    exact Combination.slotsCoverBases_ofInputs inputs
  refine ⟨hs, ?_, hvtables, ?_⟩
  · intro hsize
    rw [hraises.symbols] at hsize
    exact hraises.calleesDefined (Combination.calleesDefined_ofInputs inputs hsize)
  · intro hlen
    rw [hs.decode_encode hknown true hlen, hvtables]
    rfl

/-- Merging a store whose functions and types are filed and named wrongly gives a valid summary. -/
theorem valid_propagateAll_combine_damaged :
    let damaged : Store :=
      { moduleName := "a"
        functions := .ofList [(⟨1⟩, { id := ⟨2⟩, calls := [⟨⟨9⟩, .direct, false⟩] })]
        types := .ofList [(⟨1⟩, { id := ⟨1⟩, base := some ⟨3⟩ }),
          (⟨3⟩, { id := ⟨3⟩, base := some ⟨1⟩, slots := [⟨2⟩] })]
        symbols := .ofList ["C", "f", "B"] }
    let s := ((combine [damaged, damaged]).propagateAll [none, some "a.f"]).store
    s.WellFormed ∧ s.CalleesDefined ∧ s.checkVtables = .ok () ∧
      Store.decode (s.encode true) = .ok s := by
  intro damaged s
  have hflags : ∀ s ∈ [damaged, damaged], s.FlagsKnown := by
    unfold Store.FlagsKnown
    decide +kernel
  have hvalid := valid_propagateAll_combine hflags [none, some "a.f"]
  exact ⟨hvalid.1, hvalid.2.1 (by decide +kernel), hvalid.2.2.1, hvalid.2.2.2 (by decide +kernel)⟩

end Merged

end LinkSummary
