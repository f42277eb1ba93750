import LinkSummary.Query

/-!
# Describing a store

The size of a store in a few lines, and once liveness is computed what is dead in it.
-/

namespace LinkSummary

namespace Store

def describedName (s : Store) (id : SymbolId) : String := (s.symbols.get? id).getD "<unknown>"

/-- The line for an entry of a dispatch table that holds a dead function. -/
def describeEntry (s : Store) : DeadEntry → String
  | .slot type slot implementation =>
    s!"  dead vtable slot: {s.describedName type}[{slot}] -> {s.describedName implementation}"
  | .witness type requirement implementation =>
    "  dead witness: " ++ s.describedName type ++ " " ++ s.describedName requirement ++ " -> "
      ++ s.describedName implementation

def describeLiveness (s : Store) : List String :=
  let functions := s.functions.size
  match s.deadFunctions, s.deadEntries with
  | .ok dead, .ok entries =>
    s!"functions: {functions} ({s.liveCount} live, {dead.length} dead)"
      :: dead.map (fun id => "  dead: " ++ s.describedName id) ++ entries.map s.describeEntry
  | _, _ => [s!"functions: {functions}", "liveness: not computed"]

def describe (s : Store) : List String :=
  ["module: " ++ s.moduleName, s!"symbols: {s.symbols.size}", s!"types: {s.types.size}"]
    ++ s.describeLiveness

end Store

end LinkSummary
