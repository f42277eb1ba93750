import LinkSummary.Store.Vtable

/-!
# Building a store by name

A front end records functions, calls and types by name while it walks a module. Names are interned
as they come up, also by an operation that then fails, so an operation returns the builder beside
its result. A builder never holds a derived class with fewer slots than its base.
-/

namespace LinkSummary

/-- A store under construction. -/
structure Builder where
  store : Store
deriving DecidableEq

namespace Builder

/-- The outcome of recording something, and the builder afterwards. -/
abbrev Recorded (α : Type) := Except SummaryError α × Builder

def begin (moduleName : String) : Builder := ⟨.new moduleName⟩

def finish (b : Builder) : Store := b.store

def recordFunction (b : Builder) (name : String) (flags : FunctionFlags) : Recorded SymbolId :=
  let (id, s) := b.store.intern name
  match s.insertFunction { id, flags } with
  | .ok s => (.ok id, ⟨s⟩)
  | .error e => (.error e, ⟨s⟩)

def setDebugName (b : Builder) (function : SymbolId) (name : String) : Recorded Unit :=
  match b.store.setDebugName function (some name) with
  | .ok s => (.ok (), ⟨s⟩)
  | .error e => (.error e, b)

/-- Record a call at the end of a function's calls. -/
def recordCall (b : Builder) (caller : SymbolId) (callee : String) (kind : CallKind)
    (preserved : Bool) : Recorded Unit :=
  if b.store.definesFunction caller then
    let (callee, s) := b.store.intern callee
    (.ok (), ⟨{ s with functions :=
      s.functions.modify caller (·.addCall { callee, kind, preserved }) }⟩)
  else if b.store.symbols.contains caller then (.error (.unknownFunction caller), b)
  else (.error (.unknownSymbol caller), b)

/-- What forbids a type with this many slots: a recorded base that has more, or else a recorded
type derived from it that has fewer. -/
def slotConflict? (s : Store) (id : SymbolId) (base : Option SymbolId) (slots : Nat) :
    Option SummaryError :=
  match base >>= s.type? with
  | some b =>
    if slots < b.slots.length then some (s.shortVtableError id slots b.id b.slots.length)
    else derivedConflict
  | none => derivedConflict
where
  /-- A recorded type derived from this one that has fewer slots. -/
  derivedConflict : Option SummaryError :=
    (s.types.values.find? fun t => t.base = some id ∧ t.slots.length < slots).map fun t =>
      s.shortVtableError t.id t.slots.length id slots

def recordType (b : Builder) (name : String) (base : Option String) (vtable : List String) :
    Recorded SymbolId :=
  let (id, s) := b.store.intern name
  let (base, s) := match base with
    | some base => let (base, s) := s.intern base; (some base, s)
    | none => (none, s)
  let (slots, s) := s.internAll vtable
  match slotConflict? s id base slots.length with
  | some e => (.error e, ⟨s⟩)
  | none =>
    match s.insertType { id, base, slots } with
    | .ok s => (.ok id, ⟨s⟩)
    | .error e => (.error e, ⟨s⟩)

/-- Record the implementation of a protocol requirement by a type. -/
def recordWitness (b : Builder) (type : SymbolId) (requirement implementation : String) :
    Recorded Unit :=
  let (requirement, s) := b.store.intern requirement
  let (implementation, s) := s.intern implementation
  if s.types.contains type then
    (.ok (), ⟨{ s with types := s.types.modify type fun t =>
      { t with witnesses := t.witnesses.insert requirement implementation } }⟩)
  else (.error (.unknownType type), ⟨s⟩)

end Builder

end LinkSummary
