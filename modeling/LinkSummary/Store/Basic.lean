import LinkSummary.FunctionSummary
import LinkSummary.TypeSummary
import LinkSummary.Symbol.Table

/-!
# Summary stores

A store holds the summary of one module, or of several merged ones: the functions and types that
are defined, keyed by their ids in the store's own symbol table. Summaries enter by insertion, which
demands that every symbol they mention is interned. After that a function can only gain the live
flag and change its readable name.
-/

namespace LinkSummary

/-- The summary of a module. -/
structure Store where
  moduleName : String
  /-- Whether the live flags are those of a finished liveness analysis. -/
  livenessComputed : Bool := false
  functions : IdMap FunctionSummary := .empty
  types : IdMap TypeSummary := .empty
  symbols : SymbolTable := .empty
deriving DecidableEq, Inhabited

/-- Why a change to a store is refused. -/
inductive SummaryError where
  | unknownSymbol (id : SymbolId)
  | unknownFunction (id : SymbolId)
  | unknownType (id : SymbolId)
  | duplicateDefinition (name : String)
  | shortVtable (name base : String) (slots baseSlots : Nat)
deriving DecidableEq

namespace SummaryError

def code : SummaryError → String
  | unknownSymbol _ => "E-SUMMARY-001"
  | unknownFunction _ => "E-SUMMARY-002"
  | unknownType _ => "E-SUMMARY-003"
  | duplicateDefinition _ => "E-SUMMARY-004"
  | shortVtable .. => "E-SUMMARY-005"

def message : SummaryError → String
  | unknownSymbol id => "unknown symbol: " ++ id.text
  | unknownFunction id => "no function recorded for " ++ id.text
  | unknownType id => "no type recorded for " ++ id.text
  | duplicateDefinition name => "duplicate definition: " ++ name
  | shortVtable name base slots baseSlots =>
    s!"vtable of {name} has {slots} slots but its base {base} has {baseSlots}"

end SummaryError

namespace Store

/-- The store of a module about which nothing is recorded. -/
def new (moduleName : String) : Store := { moduleName }

/-! ### Names -/

/-- Intern a name in the store's symbol table. -/
def intern (s : Store) (name : String) : SymbolId × Store :=
  let (id, symbols) := s.symbols.intern name
  (id, { s with symbols })

def internAll (s : Store) : List String → List SymbolId × Store
  | [] => ([], s)
  | name :: names =>
    let (id, s) := s.intern name
    let (ids, s) := s.internAll names
    (id :: ids, s)

def nameOf (s : Store) (id : SymbolId) : Except SymbolError String := s.symbols.resolve id

/-- The name of a symbol; an id outside the table shows as its number. -/
def shownName (s : Store) (id : SymbolId) : String := (s.symbols.get? id).getD id.text

/-- The first of some ids that the symbol table never gave out. -/
def firstUnknown (s : Store) (ids : List SymbolId) : Option SymbolId :=
  ids.find? fun id => !s.symbols.contains id

/-! ### Look-up -/

def function? (s : Store) (id : SymbolId) : Option FunctionSummary := s.functions.get? id

def functionNamed? (s : Store) (name : String) : Option FunctionSummary :=
  s.symbols.lookup name >>= s.function?

def type? (s : Store) (id : SymbolId) : Option TypeSummary := s.types.get? id

def typeNamed? (s : Store) (name : String) : Option TypeSummary :=
  s.symbols.lookup name >>= s.type?

/-- Whether a function is recorded under an id. -/
def definesFunction (s : Store) (id : SymbolId) : Bool := s.functions.contains id

/-- Whether a function or type is recorded under a name. -/
def defines (s : Store) (name : String) : Bool :=
  (s.symbols.lookup name).any fun id => s.functions.contains id || s.types.contains id

def isLive (s : Store) (id : SymbolId) : Bool := (s.function? id).any (·.isLive)

/-- Whether an id is a function that is not live. -/
def isDead (s : Store) (id : SymbolId) : Bool := (s.function? id).any (!·.isLive)

def liveCount (s : Store) : Nat := s.functions.values.countP (·.isLive)

/-! ### Insertion -/

/-- Record a function. Its own id and those of its callees have to be interned, and no function may
be recorded under its id. -/
def insertFunction (s : Store) (f : FunctionSummary) : Except SummaryError Store :=
  match s.symbols.get? f.id with
  | none => .error (.unknownSymbol f.id)
  | some name =>
    match s.firstUnknown (f.calls.map (·.callee)) with
    | some id => .error (.unknownSymbol id)
    | none =>
      if s.functions.contains f.id then .error (.duplicateDefinition name)
      else .ok { s with functions := s.functions.insert f.id f }

/-- Record a type. Its own id and those it refers to have to be interned, and no type may be
recorded under its id. -/
def insertType (s : Store) (t : TypeSummary) : Except SummaryError Store :=
  match s.symbols.get? t.id with
  | none => .error (.unknownSymbol t.id)
  | some name =>
    match s.firstUnknown t.references with
    | some id => .error (.unknownSymbol id)
    | none =>
      if s.types.contains t.id then .error (.duplicateDefinition name)
      else .ok { s with types := s.types.insert t.id t }

/-! ### Change -/

/-- Attach a readable name to a function, or take it away. -/
def setDebugName (s : Store) (function : SymbolId) (name : Option String) :
    Except SummaryError Store :=
  if s.definesFunction function then
    .ok { s with functions := s.functions.modify function ({ · with debugName := name }) }
  else .error (.unknownFunction function)

/-- Mark a function live; a function that is live already, or not defined, changes nothing. -/
def setLive (s : Store) (function : SymbolId) : Store :=
  if s.isDead function then
    { s with functions := s.functions.modify function (·.markLive) }
  else s

/-- Mark a function live, and tell whether it was not live before. -/
def markLive (s : Store) (function : SymbolId) : Except SummaryError (Bool × Store) :=
  if s.definesFunction function then .ok (s.isDead function, s.setLive function)
  else .error (.unknownFunction function)

/-- Record that the live flags are those of a finished analysis. -/
def markLivenessComputed (s : Store) : Store := { s with livenessComputed := true }

def withoutDebugNames (s : Store) : Store :=
  { s with functions := s.functions.map ({ · with debugName := none }) }

end Store

end LinkSummary
