import LinkSummary.Store.Basic

/-!
# What a merge reports

A merge never fails: what cannot be kept is dropped, and a diagnostic says so. Each is reported
once.
-/

namespace LinkSummary

/-- Why a call is not tied to a definition. -/
inductive UnresolvedReason where
  | undefinedCallee
  | noDispatchEntry
deriving DecidableEq

def UnresolvedReason.text : UnresolvedReason → String
  | undefinedCallee => "callee is not defined in any input"
  | noDispatchEntry => "no dispatch table entry holds the callee"

/-- Something to tell of a merge. -/
inductive Diagnostic where
  | unresolvedEdge (caller callee : String) (kind : CallKind) (reason : UnresolvedReason)
  | duplicateDefinition (name module : String)
  | inconsistentVtable (type : String) (slot : Nat)
  /-- An input refers to an id outside its own symbol table. -/
  | danglingSymbol (module : String) (id : SymbolId)
deriving DecidableEq

namespace Diagnostic

def code : Diagnostic → String
  | unresolvedEdge .. => "W-MERGE-001"
  | duplicateDefinition .. => "W-MERGE-002"
  | inconsistentVtable .. => "W-MERGE-003"
  | danglingSymbol .. => "W-MERGE-004"

def message : Diagnostic → String
  | unresolvedEdge caller callee kind reason =>
    s!"{kind.text} call from '{caller}' to '{callee}' is unresolved: {reason.text}"
  | duplicateDefinition name _ =>
    s!"'{name}' is defined more than once; keeping the definition from the first input"
  | inconsistentVtable type slot =>
    s!"vtable of '{type}' ends before its base's; slots from {slot} on are inherited"
  | danglingSymbol module id =>
    s!"module '{module}' refers to {id.text}, which its symbol table does not contain"

/-- Add a diagnostic at the end of a list that does not have it. -/
def addTo (diagnostics : List Diagnostic) (d : Diagnostic) : List Diagnostic :=
  if d ∈ diagnostics then diagnostics else diagnostics ++ [d]

end Diagnostic

end LinkSummary
