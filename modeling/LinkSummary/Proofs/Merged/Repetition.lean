import LinkSummary.Proofs.Liveness.Settled
import LinkSummary.Proofs.Merged

/-!
# Spreading liveness over a merge several times

Each time liveness is spread over a merge, functions are raised and nothing else of the store
changes; the functions that become live are counted. The first time leaves nothing to do, so any
further time finds no function to mark and leaves store, trace and reports as they are.
-/

namespace LinkSummary.Merged

variable {m : Merged} {inputs : List Store} {id : SymbolId}

/-- Liveness has spread over a merge. -/
def Settled (m : Merged) : Prop := Spread.Settled m.store m.trace m.diagnostics

lemma settled_propagate (hm : m.store.WellFormed) (name : Option String) :
    (m.propagate name).2.Settled :=
  Spread.settled_ofStore hm m.trace m.diagnostics

/-- Where liveness has spread, only the explanation asked for changes. -/
lemma Settled.propagate_eq (h : m.Settled) (hm : m.store.WellFormed) (name : Option String) :
    m.propagate name = (0, { m with report := name.map m.explain }) := by
  have hspread := Spread.Settled.ofStore_eq hm h
  rw [propagate, hspread]

lemma Settled.propagateAll (h : m.Settled) (hm : m.store.WellFormed)
    (traced : List (Option String)) : (m.propagateAll traced).Settled := by
  induction traced generalizing m with
  | nil => exact h
  | cons name traced ih =>
    refine ih (m := (m.propagate name).2) (settled_propagate hm name) ?_
    exact (raises_propagate hm name).wellFormed hm

lemma marked_propagate (hm : m.store.WellFormed) (name : Option String) :
    (m.propagate name).1 = (m.store.newlyLive (m.propagate name).2.store).length :=
  Spread.marked_ofStore hm m.trace m.diagnostics

/-! ### Several times -/

/-- The functions that become live each time, when liveness is spread several times. -/
def newlyLiveAll (m : Merged) : List (Option String) → List SymbolId
  | [] => []
  | name :: traced =>
    m.store.newlyLive (m.propagate name).2.store ++ (m.propagate name).2.newlyLiveAll traced

/-- Whatever becomes live is dead at the beginning. -/
lemma isLive_eq_false_of_mem_newlyLiveAll (hm : m.store.WellFormed) (traced : List (Option String))
    (h : id ∈ m.newlyLiveAll traced) : ¬ m.store.isLive id = true := by
  induction traced generalizing m with
  | nil => cases h
  | cons name traced ih =>
    have hraises := raises_propagate hm name
    rcases List.mem_append.mp h with h | h
    · exact (Store.isDead_iff_not_isLive.mp (Store.mem_newlyLive.mp h).1).2
    · exact fun hlive => ih (hraises.wellFormed hm) h (hraises.isLive hlive)

lemma nodup_newlyLiveAll (hm : m.store.WellFormed) (traced : List (Option String)) :
    (m.newlyLiveAll traced).Nodup := by
  induction traced generalizing m with
  | nil => exact List.nodup_nil
  | cons name traced ih =>
    have hm' := (raises_propagate hm name).wellFormed hm
    refine List.nodup_append.mpr ⟨Store.nodup_newlyLive _ _, ih hm', ?_⟩
    rintro id hfirst id' hlater rfl
    exact isLive_eq_false_of_mem_newlyLiveAll hm' traced hlater (Store.mem_newlyLive.mp hfirst).2

/-- Each time liveness is spread over a union it only raises functions, and tells how many have
become live; no function does so twice. From the second time on no function is marked, and nothing
changes but the explanation asked for. -/
theorem propagate_propagateAll_combine (inputs : List Store) :
    (∀ traced name, let m := (combine inputs).propagateAll traced
      m.store.Raises (m.propagate name).2.store ∧
        (m.propagate name).2.store.livenessComputed = true ∧
        (m.propagate name).1 = (m.store.newlyLive (m.propagate name).2.store).length) ∧
    (∀ traced, ((combine inputs).newlyLiveAll traced).Nodup) ∧
    ∀ first traced name, let m := (combine inputs).propagateAll (first :: traced)
      m.propagate name = (0, { m with report := name.map m.explain }) := by
  have hunion := wellFormed_combine inputs
  have hall : ∀ traced, ((combine inputs).propagateAll traced).store.WellFormed := fun traced =>
    (raises_propagateAll hunion traced).wellFormed hunion
  refine ⟨?_, nodup_newlyLiveAll hunion, ?_⟩
  · intro traced name m
    exact ⟨raises_propagate (hall traced) name, rfl, marked_propagate (hall traced) name⟩
  · intro first traced name m
    have hfirst := (raises_propagate hunion first).wellFormed hunion
    have hsettled : m.Settled := (settled_propagate hunion first).propagateAll hfirst traced
    exact hsettled.propagate_eq (hall (first :: traced)) name

end LinkSummary.Merged
