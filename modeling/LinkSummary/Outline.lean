import LinkSummary.Store.Vtable

/-!
# Outlines

An outline is a store with every id replaced by its name, and functions, types and witnesses in
the order of their names, so it does not depend on the order in which names were interned. It is
what the text form of a store shows.
-/

namespace LinkSummary

/-- A call by name. -/
structure CallOutline where
  callee : String
  kind : CallKind
  preserved : Bool := false
deriving DecidableEq

/-- A function by name. -/
structure FunctionOutline where
  name : String
  debugName : Option String := none
  live : Bool := false
  preserved : Bool := false
  fixedContents : Bool := false
  calls : List CallOutline := []
deriving DecidableEq

/-- A witness by name. -/
structure WitnessOutline where
  requirement : String
  implementation : String
deriving DecidableEq

/-- A type by name. -/
structure TypeOutline where
  name : String
  base : Option String := none
  vtable : List String := []
  witnesses : List WitnessOutline := []
deriving DecidableEq

/-- A store by names. -/
structure Outline where
  moduleName : String
  /-- Whether the live flags are those of a finished analysis. -/
  livenessComputed : Bool := false
  functions : List FunctionOutline := []
  types : List TypeOutline := []
deriving DecidableEq

/-- A list in the order of the names of its items; items with one name stay as they were. -/
def sortByName {α : Type} (name : α → String) (items : List α) : List α :=
  items.mergeSort fun a b => !decide (name b < name a)

namespace Store

/-! ### From a store -/

def callOutline (s : Store) (edge : CallEdge) : CallOutline :=
  { callee := s.shownName edge.callee, kind := edge.kind, preserved := edge.preserved }

def functionOutline (s : Store) (f : FunctionSummary) : FunctionOutline where
  name := s.shownName f.id
  debugName := f.debugName
  live := f.flags.live
  preserved := f.flags.preserved
  fixedContents := f.flags.fixedContents
  calls := f.calls.map s.callOutline

def typeOutline (s : Store) (t : TypeSummary) : TypeOutline where
  name := s.shownName t.id
  base := t.base.map s.shownName
  vtable := t.slots.map s.shownName
  witnesses := sortByName (·.requirement) <| t.witnesses.entries.map
    fun (requirement, implementation) => ⟨s.shownName requirement, s.shownName implementation⟩

def outline (s : Store) : Outline where
  moduleName := s.moduleName
  livenessComputed := s.livenessComputed
  functions := sortByName (·.name) (s.functions.values.map s.functionOutline)
  types := sortByName (·.name) (s.types.values.map s.typeOutline)

end Store

namespace Outline

/-! ### To a store -/

/-- The calls of an outline, with their callees interned. -/
def internCalls (s : Store) : List CallOutline → List CallEdge × Store
  | [] => ([], s)
  | call :: calls =>
    let (callee, s) := s.intern call.callee
    let (edges, s) := internCalls s calls
    ({ callee, kind := call.kind, preserved := call.preserved } :: edges, s)

def insertFunction (s : Store) (f : FunctionOutline) : Except SummaryError Store :=
  let (id, s) := s.intern f.name
  let (calls, s) := internCalls s f.calls
  let flags : FunctionFlags :=
    { live := f.live, preserved := f.preserved, fixedContents := f.fixedContents }
  s.insertFunction { id, debugName := f.debugName, flags, calls }

/-- The witnesses of an outline, with both their names interned. -/
def internWitnesses (s : Store) : List WitnessOutline → List (SymbolId × SymbolId) × Store
  | [] => ([], s)
  | witness :: witnesses =>
    let (requirement, s) := s.intern witness.requirement
    let (implementation, s) := s.intern witness.implementation
    let (entries, s) := internWitnesses s witnesses
    ((requirement, implementation) :: entries, s)

def internBase (s : Store) : Option String → Option SymbolId × Store
  | none => (none, s)
  | some base =>
    let (id, s) := s.intern base
    (some id, s)

def insertType (s : Store) (t : TypeOutline) : Except SummaryError Store :=
  let (id, s) := s.intern t.name
  let (base, s) := internBase s t.base
  let (slots, s) := s.internAll t.vtable
  let (witnesses, s) := internWitnesses s t.witnesses
  s.insertType { id, base, slots, witnesses := .ofList witnesses }

/-- The store of an outline. The names of all functions and types are interned first, in the
outline's order, then those they refer to. -/
def toStore (o : Outline) : Except SummaryError Store := do
  let named := o.functions.map (·.name) ++ o.types.map (·.name)
  let s := ((Store.new o.moduleName).internAll named).2
  let s ← o.functions.foldlM insertFunction s
  let s ← o.types.foldlM insertType s
  s.checkVtables
  return if o.livenessComputed then s.markLivenessComputed else s

end Outline

end LinkSummary
