import LinkSummary.Store.Basic

/-!
# Names across modules

In a merged store a name that a module defines is qualified with the module's name. A reference to
a name that the module does not define stands as it is: it may be qualified already, or be external.
The names of a store that is itself the result of a merge are kept.
-/

namespace LinkSummary

def combinedName : String := "combined"

namespace Store

/-- Whether the store is the result of a merge. -/
def isCombined (s : Store) : Bool := s.moduleName == combinedName

/-- The merged name of a name that the store defines. -/
def qualify (s : Store) (name : String) : String :=
  if s.isCombined then name else s.moduleName ++ "." ++ name

/-- The merged name of a name that the store refers to. -/
def mergedReference (s : Store) (name : String) : String :=
  if s.defines name then s.qualify name else name

/-- The merged names of the functions that the store defines. -/
def mergedFunctionNames (s : Store) : List String :=
  s.functions.values.filterMap fun f => (s.symbols.get? f.id).map s.qualify

end Store

end LinkSummary
