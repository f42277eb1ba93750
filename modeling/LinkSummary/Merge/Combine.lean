import LinkSummary.Merge.Diagnostic
import LinkSummary.Merge.Naming
import LinkSummary.Store.Vtable

/-!
# The union of stores

The functions and types of all inputs under their merged names, the first definition of a name
being kept. A direct or virtual call is dropped if no input defines its callee as a function; a
witness call is always kept, for its callee is a requirement. Vtables that end before their base's
are continued at the end.
-/

namespace LinkSummary

/-- A union under construction. -/
structure Combination where
  store : Store := .new combinedName
  diagnostics : List Diagnostic := []
deriving DecidableEq

namespace Combination

/-- Report a diagnostic, unless it was reported before. -/
def report (c : Combination) (d : Diagnostic) : Combination :=
  { c with diagnostics := Diagnostic.addTo c.diagnostics d }

def intern (c : Combination) (name : String) : SymbolId × Combination :=
  let (id, store) := c.store.intern name
  (id, { c with store })

/-- Report that an input refers to an id outside its symbol table. -/
def reportDangling (c : Combination) (input : Store) (id : SymbolId) : Combination :=
  c.report (.danglingSymbol input.moduleName id)

/-- Intern the merged name of a symbol that an input refers to. An id outside the input's symbol
table is reported, and there is no symbol for it. -/
def internReference (c : Combination) (input : Store) (id : SymbolId) :
    Option SymbolId × Combination :=
  match input.symbols.get? id with
  | none => (none, c.reportDangling input id)
  | some name =>
    let (merged, c) := c.intern (input.mergedReference name)
    (some merged, c)

/-- Take up the outcome of an insertion: a name defined before is reported, and a summary that the
store refuses for another cause is left out. -/
def inserted (c : Combination) (input : Store) (name : String) :
    Except SummaryError Store → Combination
  | .ok store => { c with store }
  | .error (.duplicateDefinition _) => c.report (.duplicateDefinition name input.moduleName)
  | .error _ => c

/-! ### Functions -/

/-- Take over the calls of an input's function whose merged name is `caller`; `functions` are the
merged names of all functions. -/
def addCalls (functions : List String) (input : Store) (caller : String) (c : Combination) :
    List CallEdge → List CallEdge × Combination
  | [] => ([], c)
  | edge :: edges =>
    match input.symbols.get? edge.callee with
    | none => (c.reportDangling input edge.callee).addCalls functions input caller edges
    | some name =>
      let callee := input.mergedReference name
      if edge.kind ≠ .witness ∧ callee ∉ functions then
        (c.report (.unresolvedEdge caller callee edge.kind .undefinedCallee)).addCalls functions
          input caller edges
      else
        let (id, c) := c.intern callee
        let (calls, c) := c.addCalls functions input caller edges
        ({ edge with callee := id } :: calls, c)

def addFunction (functions : List String) (input : Store) (c : Combination)
    (f : FunctionSummary) : Combination :=
  match input.symbols.get? f.id with
  | none => c.reportDangling input f.id
  | some name =>
    let name := input.qualify name
    let (id, c) := c.intern name
    let (calls, c) := c.addCalls functions input name f.calls
    c.inserted input name (c.store.insertFunction { f with id, calls })

/-! ### Types -/

def addBase (input : Store) (c : Combination) : Option SymbolId → Option SymbolId × Combination
  | none => (none, c)
  | some base => c.internReference input base

/-- Take over vtable slots. There is no table when a slot has no name, for the later slots would
move. -/
def addSlots (input : Store) (c : Combination) :
    List SymbolId → Option (List SymbolId) × Combination
  | [] => (some [], c)
  | slot :: slots =>
    match c.internReference input slot with
    | (none, c) => (none, c)
    | (some slot, c) =>
      match c.addSlots input slots with
      | (none, c) => (none, c)
      | (some slots, c) => (some (slot :: slots), c)

/-- Take over a witness table. An entry that has a symbol without name is left out. -/
def addWitnesses (input : Store) (c : Combination) :
    List (SymbolId × SymbolId) → List (SymbolId × SymbolId) × Combination
  | [] => ([], c)
  | (requirement, implementation) :: entries =>
    let (requirement, c) := c.internReference input requirement
    let (implementation, c) := c.internReference input implementation
    let (entries, c) := c.addWitnesses input entries
    match requirement, implementation with
    | some requirement, some implementation => ((requirement, implementation) :: entries, c)
    | _, _ => (entries, c)

def addType (input : Store) (c : Combination) (t : TypeSummary) : Combination :=
  match input.symbols.get? t.id with
  | none => c.reportDangling input t.id
  | some name =>
    let name := input.qualify name
    let (id, c) := c.intern name
    let (base, c) := c.addBase input t.base
    match c.addSlots input t.slots with
    | (none, c) => c
    | (some slots, c) =>
      let (witnesses, c) := c.addWitnesses input t.witnesses.entries
      c.inserted input name (c.store.insertType { id, base, slots, witnesses := .ofList witnesses })

/-! ### All inputs -/

/-- Take over an input: its functions, then its types. -/
def addInput (functions : List String) (c : Combination) (input : Store) : Combination :=
  let c := input.functions.values.foldl (addFunction functions input) c
  input.types.values.foldl (addType input) c

/-- Continue the vtables that end before their base's, and report them. -/
def inheritSlots (c : Combination) : Combination :=
  let (store, extended) := c.store.inheritMissingSlots
  extended.foldl (fun c (type, slot) =>
    c.report (.inconsistentVtable ((store.symbols.get? type).getD "?") slot)) { c with store }

/-- The union of stores, before liveness is computed. -/
def ofInputs (inputs : List Store) : Combination :=
  let functions := inputs.flatMap Store.mergedFunctionNames
  (inputs.foldl (addInput functions) {}).inheritSlots

end Combination

end LinkSummary
