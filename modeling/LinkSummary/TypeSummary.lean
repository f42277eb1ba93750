import LinkSummary.IdMap

/-!
# Type summaries

The dispatch tables of a class or conformance. A derived class repeats the slots of its base in
the same positions, with overridden entries replaced and its own methods after them.
-/

namespace LinkSummary

/-- The dispatch tables of one type. -/
structure TypeSummary where
  id : SymbolId
  base : Option SymbolId := none
  slots : List SymbolId := []
  witnesses : IdMap SymbolId := .empty
deriving DecidableEq, Inhabited

namespace TypeSummary

def slotsOf (t : TypeSummary) (implementation : SymbolId) : List Nat :=
  t.slots.zipIdx.filterMap fun (slot, position) =>
    if slot = implementation then some position else none

/-- Every symbol that the type refers to: base, slots, then each requirement with its
implementation. -/
def references (t : TypeSummary) : List SymbolId :=
  t.base.toList ++ t.slots ++ t.witnesses.entries.flatMap fun (requirement, implementation) =>
    [requirement, implementation]

end TypeSummary

end LinkSummary
