import LinkSummary.Symbol.Id

/-!
# Symbol tables

A symbol table is a list of different names. The name at position `i` has the id `i + 1`, and a
name that is interned for the first time goes to the end, so an id once given out keeps its name.
-/

namespace LinkSummary

/-- The names that one store refers to, in the order in which they were first interned. -/
structure SymbolTable where
  names : List String
  nodup : names.Nodup
deriving DecidableEq

/-- A failed look-up in a symbol table. -/
inductive SymbolError where
  | unknownSymbol (id : SymbolId)
deriving DecidableEq

namespace SymbolError

def code : SymbolError → String
  | unknownSymbol _ => "E-SYMBOL-001"

def message : SymbolError → String
  | unknownSymbol id => "unknown symbol: " ++ id.text

end SymbolError

namespace SymbolTable

def empty : SymbolTable := ⟨[], .nil⟩

instance : EmptyCollection SymbolTable := ⟨empty⟩

instance : Inhabited SymbolTable := ⟨empty⟩

def size (t : SymbolTable) : Nat := t.names.length

def idAt (position : Nat) : SymbolId := ⟨UInt32.ofNat (position + 1)⟩

def lookup (t : SymbolTable) (name : String) : Option SymbolId :=
  (t.names.idxOf? name).map idAt

/-- The name of an id, if the table gave it out. -/
def get? (t : SymbolTable) (id : SymbolId) : Option String :=
  if id.isAbsent then none else t.names[id.toNat - 1]?

def resolve (t : SymbolTable) (id : SymbolId) : Except SymbolError String :=
  match t.get? id with
  | some name => .ok name
  | none => .error (.unknownSymbol id)

def contains (t : SymbolTable) (id : SymbolId) : Bool := (t.get? id).isSome

/-- The table with a name in it: unchanged if the name is known, else with the name at its end. -/
def insert (t : SymbolTable) (name : String) : SymbolTable :=
  if h : name ∈ t.names then t
  else ⟨t.names ++ [name], by
    refine List.nodup_append.2 ⟨t.nodup, by simp, ?_⟩
    rintro a ha b hb rfl
    exact h (by simpa using (List.mem_singleton.1 hb) ▸ ha)⟩

/-- Intern a name: its id, and the table that has it. -/
def intern (t : SymbolTable) (name : String) : SymbolId × SymbolTable :=
  (match t.lookup name with
    | some id => id
    | none => idAt t.size,
   t.insert name)

/-- The table of a list of names, each interned in turn. -/
def ofList (names : List String) : SymbolTable := names.foldl insert empty

/-- The ids in use with their names, in id order. -/
def toList (t : SymbolTable) : List (SymbolId × String) :=
  t.names.mapIdx fun position name => (idAt position, name)

/-! ### Small facts -/

theorem insert_of_mem {t : SymbolTable} {name : String} (h : name ∈ t.names) :
    t.insert name = t := by
  simp [insert, h]

theorem names_insert_of_not_mem {t : SymbolTable} {name : String} (h : name ∉ t.names) :
    (t.insert name).names = t.names ++ [name] := by
  simp [insert, h]

theorem mem_names_insert {t : SymbolTable} {name other : String} :
    other ∈ (t.insert name).names ↔ other = name ∨ other ∈ t.names := by
  by_cases h : name ∈ t.names
  · rw [insert_of_mem h]
    exact ⟨.inr, fun | .inl e => e ▸ h | .inr h => h⟩
  · simp [names_insert_of_not_mem h, or_comm]

theorem lookup_isSome_iff {t : SymbolTable} {name : String} :
    (t.lookup name).isSome ↔ name ∈ t.names := by
  simp [lookup, List.isSome_idxOf?]

end SymbolTable

end LinkSummary
