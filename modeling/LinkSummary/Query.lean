import LinkSummary.Dispatch

/-!
# Questions to a merged store

What an optimizer asks once liveness is computed: which functions are dead, which entries of
dispatch tables hold dead functions, and which dynamic calls have a single live target. Before
liveness is computed these questions have no answer.
-/

namespace LinkSummary

/-- Why a question has no answer. -/
inductive UsageError where
  | notMerged (module : String)
  | unknownSymbol (id : SymbolId)
deriving DecidableEq

namespace UsageError

def code : UsageError → String
  | notMerged _ => "E-USAGE-001"
  | unknownSymbol _ => "E-USAGE-002"

def message : UsageError → String
  | notMerged module =>
    s!"liveness of module '{module}' has not been computed; merge it first"
  | unknownSymbol id => "unknown symbol: " ++ id.text

end UsageError

/-- An entry of a dispatch table whose implementation is dead. -/
inductive DeadEntry where
  | slot (type : SymbolId) (slot : Nat) (implementation : SymbolId)
  | witness (type requirement implementation : SymbolId)
deriving DecidableEq

def DeadEntry.implementation : DeadEntry → SymbolId
  | slot _ _ implementation => implementation
  | witness _ _ implementation => implementation

namespace Store

def requireMerged (s : Store) : Except UsageError Unit :=
  if s.livenessComputed then .ok () else .error (.notMerged s.moduleName)

def requireInterned (s : Store) (id : SymbolId) : Except UsageError Unit :=
  if s.symbols.contains id then .ok () else .error (.unknownSymbol id)

def queryLive (s : Store) (id : SymbolId) : Except UsageError Bool := do
  s.requireMerged
  s.requireInterned id
  return s.isLive id

/-- The one element of a list that has no other. -/
def sole {α : Type} : List α → Option α
  | [a] => some a
  | _ => none

/-- The single live function that a call can reach; a call whose dispatch is preserved has none. -/
def devirtualize (s : Store) (edge : CallEdge) : Except UsageError (Option SymbolId) := do
  s.requireMerged
  s.requireInterned edge.callee
  if edge.preserved then return none
  let targets := (DispatchIndex.ofStore s).targets s edge.kind edge.callee
  return sole (targets.implementations.filter s.isLive)

/-- The functions that are not live, in id order. -/
def deadFunctions (s : Store) : Except UsageError (List SymbolId) := do
  s.requireMerged
  return (s.functions.values.filter (!·.isLive)).map (·.id)

/-- The entries of a type's dispatch tables that hold dead functions: slots, then witnesses. -/
def deadEntriesOf (s : Store) (t : TypeSummary) : List DeadEntry :=
  (t.slots.zipIdx.filterMap fun (implementation, slot) =>
      if s.isDead implementation then some (.slot t.id slot implementation) else none)
    ++ t.witnesses.entries.filterMap fun (requirement, implementation) =>
      if s.isDead implementation then some (.witness t.id requirement implementation) else none

/-- The entries of dispatch tables that hold dead functions, type by type. What the store does not
define may be live. -/
def deadEntries (s : Store) : Except UsageError (List DeadEntry) := do
  s.requireMerged
  return s.types.values.flatMap s.deadEntriesOf

end Store

end LinkSummary
