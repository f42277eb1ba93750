import LinkSummary.Symbol.Table

/-!
# Symbol tables with an index

A symbol table keeps its names twice: listed in id order, and in an index that leads from each name
to its id. Interning consults the index and writes to both parts. The stores of this library do with
the list alone, in which a name is searched for; the two kinds of table give the same answers.
-/

namespace LinkSummary

/-- The names in id order, and the id of each name. -/
structure IndexedTable where
  names : List String
  index : List (String × SymbolId)
deriving Inhabited

namespace IndexedTable

def empty : IndexedTable := { names := [], index := [] }

/-- Tables are compared by their names, without regard to the index. -/
instance : BEq IndexedTable := ⟨fun t t' => t.names == t'.names⟩

def size (t : IndexedTable) : Nat := t.names.length

/-- The id that the index has for a name. -/
def lookup (t : IndexedTable) (name : String) : Option SymbolId := t.index.lookup name

/-- The name of an id, if the table gave it out. -/
def get? (t : IndexedTable) (id : SymbolId) : Option String :=
  if id.isAbsent then none else t.names[id.toNat - 1]?

def resolve (t : IndexedTable) (id : SymbolId) : Except SymbolError String :=
  match t.get? id with
  | some name => .ok name
  | none => .error (.unknownSymbol id)

def contains (t : IndexedTable) (id : SymbolId) : Bool := (t.get? id).isSome

/-- Intern a name: the id that the index has for it, or else the id after the last, under which the
name is entered. -/
def intern (t : IndexedTable) (name : String) : SymbolId × IndexedTable :=
  match t.lookup name with
  | some id => (id, t)
  | none =>
    let id := SymbolTable.idAt t.size
    (id, { names := t.names ++ [name], index := (name, id) :: t.index })

/-- The table of a list of names, each interned in turn. -/
def ofList (names : List String) : IndexedTable :=
  names.foldl (fun t name => (t.intern name).2) empty

/-- The ids in use with their names, in id order. -/
def toList (t : IndexedTable) : List (SymbolId × String) :=
  t.names.mapIdx fun position name => (SymbolTable.idAt position, name)

end IndexedTable

end LinkSummary
