import LinkSummary.Proofs.Liveness.Shortest
import LinkSummary.Proofs.Merged.Repetition
import LinkSummary.Proofs.Store.Operation

/-!
# Why functions are live after a merge

The trace of a merge has a reason for each live function and for no other, and every chain of
reasons accounts for the function that it starts with. So a function is explained as dead exactly if
it is defined and not live. No explanation is longer than it has to be.
-/

namespace LinkSummary

namespace Spread.Explained

variable {s : Store} {p : Spread}

/-- Functions without a reason are explained as dead, if there are such functions. -/
lemma explain_eq_dead_iff (h : Explained s p) (hs : p.store.WellFormed) (name : String) :
    p.trace.explain p.store name = s!"'{name}' is dead\n" ↔
      (p.store.functionNamed? name).map (·.isLive) = some false := by
  have hdead : ∀ f, p.store.functionNamed? name = some f →
      (p.trace.chain f.id = [] ↔ f.isLive = false) := by
    intro f hf
    obtain ⟨id, -, hid⟩ := Option.bind_eq_some_iff.mp hf
    rw [← (hs.functions hid).id_eq] at hid
    rw [h.founded.chain_eq_nil_iff, ← Option.not_isSome_iff_eq_none, h.noted_iff, Store.isLive, hid,
      Option.any_some, Bool.not_eq_true]
  rw [LivenessTrace.explain_eq_dead_iff, Option.map_eq_some_iff]
  exact exists_congr fun f => and_congr_right (hdead f)

end Spread.Explained

namespace Merged

/-- Spreading liveness over a merge again leaves the store and the trace as they are. -/
lemma Settled.store_trace_propagateAll {m : Merged} (h : m.Settled) (hm : m.store.WellFormed)
    (traced : List (Option String)) :
    (m.propagateAll traced).store = m.store ∧ (m.propagateAll traced).trace = m.trace := by
  induction traced generalizing m with
  | nil => exact ⟨rfl, rfl⟩
  | cons name traced ih =>
    rw [Merged.propagateAll, List.foldl_cons, h.propagate_eq hm name]
    exact ih (m := { m with report := name.map m.explain }) h hm

/-- However often liveness is spread over a union, the trace has reasons for the live functions and
no others. Each live function is accounted for by its chain: every link names a call in the result
that reaches the function, and the last a function which is preserved or was live before. -/
theorem accounts_propagateAll_combine (inputs : List Store) (first : Option String)
    (traced : List (Option String)) :
    let m := (combine inputs).propagateAll (first :: traced)
    (∀ id, (m.trace.reason? id).isSome = m.store.isLive id) ∧
      m.trace.size = m.store.liveCount ∧
      (∀ id, m.store.isLive id = true →
        Store.Accounts (combine inputs).store m.store m.trace id (m.trace.chain id)) ∧
      ∀ name, m.explain name = s!"'{name}' is dead\n" ↔ m.isLive name = some false := by
  intro m
  have hunion := wellFormed_combine inputs
  have hraises := raises_propagate hunion first
  have hs := hraises.wellFormed hunion
  have hexplained := Spread.explained_ofStore hunion (combine inputs).diagnostics
  obtain ⟨hstore, htrace⟩ := (settled_propagate hunion first).store_trace_propagateAll hs traced
  change m.store = _ at hstore
  change m.trace = _ at htrace
  simp only [explain, isLive, hstore, htrace]
  refine ⟨fun id => Bool.eq_iff_iff.mpr (hexplained.noted_iff id), hexplained.size_eq, ?_, ?_⟩
  · intro id hlive
    refine Store.accounts_chain hexplained.founded ?_ ((hexplained.noted_iff id).mpr hlive)
    exact fun id reason hreason => hraises.justifies (hexplained.justified id reason hreason)
  · intro name
    exact hexplained.explain_eq_dead_iff hs name

/-- After a merge the chain of a live function is as short as can be: apart from the function that it
starts with, it has as many links as there are calls on a shortest path to the function from one that
is preserved or live in the union. -/
theorem isLeast_length_chain_ofInputs (inputs : List Store) (traced : Option String) {id : SymbolId}
    (hlive : (ofInputs inputs traced).store.isLive id = true) :
    ∃ n, ((ofInputs inputs traced).trace.chain id).length = n + 1 ∧
      IsLeast {n | (combine inputs).store.ReachedIn n id} n :=
  Spread.isLeast_linkCount_ofStore (wellFormed_combine inputs) (combine inputs).diagnostics hlive

/-- An override that three direct calls lead to, and after one direct call also a virtual one. -/
theorem isLeast_length_chain_ofInputs_override :
    let library := Store.performAll "library" [.build (.recordFunction "B.f" {}),
      .build (.recordType "B" none ["B.f"])]
    let program := Store.performAll "program" [
      .build (.recordFunction "main" { preserved := true }), .build (.recordFunction "a" {}),
      .build (.recordFunction "b" {}), .build (.recordFunction "c" {}),
      .build (.recordFunction "C.f" {}), .build (.recordType "C" (some "library.B") ["C.f"]),
      .build (.recordCall ⟨1⟩ "a" .direct false), .build (.recordCall ⟨1⟩ "c" .direct false),
      .build (.recordCall ⟨2⟩ "b" .direct false), .build (.recordCall ⟨3⟩ "C.f" .direct false),
      .build (.recordCall ⟨4⟩ "library.B.f" .virtual false)]
    let m := ofInputs [library, program]
    m.store.isLive ⟨7⟩ = true ∧
      m.trace.chain ⟨7⟩ = [(⟨7⟩, .indirectRef ⟨5⟩), (⟨5⟩, .staticRef ⟨3⟩), (⟨3⟩, .preserved)] ∧
      IsLeast {n | (combine [library, program]).store.ReachedIn n ⟨7⟩} 2 := by
  intro library program m
  have hlive : m.store.isLive ⟨7⟩ = true := by decide +kernel
  have hchain : m.trace.chain ⟨7⟩ =
      [(⟨7⟩, .indirectRef ⟨5⟩), (⟨5⟩, .staticRef ⟨3⟩), (⟨3⟩, .preserved)] := by
    decide +kernel
  obtain ⟨n, hlength, hleast⟩ := isLeast_length_chain_ofInputs [library, program] none hlive
  have htwo : 3 = n + 1 := by
    rw [← hlength]
    exact (congrArg List.length hchain).symm
  cases htwo
  exact ⟨hlive, hchain, hleast⟩

end Merged

end LinkSummary
