import LinkSummary.Liveness.Spread
import LinkSummary.Merge.Combine

/-!
# Merging stores

A merge is the union of its inputs, over which liveness is spread. What is reported on the way, and
why each function is live, stays with the result.
-/

namespace LinkSummary

/-- The result of merging stores. -/
structure Merged where
  store : Store
  diagnostics : List Diagnostic := []
  trace : LivenessTrace := .empty
  /-- The explanation asked for when liveness was last spread. -/
  report : Option String := none
deriving DecidableEq

namespace Merged

def combine (inputs : List Store) : Merged :=
  let c := Combination.ofInputs inputs
  { store := c.store, diagnostics := c.diagnostics }

/-- Why the function with a merged name is live or dead. -/
def explain (m : Merged) (name : String) : String := m.trace.explain m.store name

/-- Whether the function with a merged name is live, if there is one. -/
def isLive (m : Merged) (name : String) : Option Bool :=
  (m.store.functionNamed? name).map (·.isLive)

/-- Spread liveness, and tell how many functions became live. The function with the name to be
traced is explained. -/
def propagate (m : Merged) (traced : Option String := none) : Nat × Merged :=
  let p := Spread.ofStore m.store m.trace m.diagnostics
  let m := { m with store := p.store, trace := p.trace, diagnostics := p.diagnostics }
  (p.marked, { m with report := traced.map m.explain })

def ofInputs (inputs : List Store) (traced : Option String := none) : Merged :=
  ((combine inputs).propagate traced).2

end Merged

end LinkSummary
