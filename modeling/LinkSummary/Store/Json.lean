import LinkSummary.Json.Printer
import LinkSummary.Json.Reader
import LinkSummary.Store.Basic

/-!
# The JSON form of a store

Everything a store holds, with functions and types under the numbers of their ids and the symbol
table as the list of its names. Reading checks the shape only: ids may lie outside the symbol table,
and an entry may be filed under a number other than its own. The names are interned in turn, so a
repeated one takes no id.
-/

namespace LinkSummary

/-! ### Flags -/

namespace FunctionFlags

/-- The names of the flags in use, in the order of their bits. -/
def named : List (String × FunctionFlags) :=
  [("LIVE", { live := true }), ("PRESERVED", { preserved := true }),
    ("FIXED_CONTENTS", { fixedContents := true })]

def names (flags : FunctionFlags) : List String :=
  (if flags.live then ["LIVE"] else []) ++ (if flags.preserved then ["PRESERVED"] else [])
    ++ if flags.fixedContents then ["FIXED_CONTENTS"] else []

def hexText (n : Nat) : String := .ofList (Nat.toDigits 16 n)

/-- The flags as text: names between bars, then the bits without a name as a number. -/
def text (flags : FunctionFlags) : String :=
  " | ".intercalate (flags.names ++
    if flags.reserved = 0 then [] else ["0x" ++ hexText (8 * flags.reserved.toNat)])

/-- The characters that are passed over around a flag: those with the Unicode property
`White_Space`. -/
def isSpace (c : Char) : Bool :=
  let n := c.toNat
  (0x09 ≤ n && n ≤ 0x0D) || n == 0x20 || n == 0x85 || n == 0xA0 || n == 0x1680
    || (0x2000 ≤ n && n ≤ 0x200A) || n == 0x2028 || n == 0x2029 || n == 0x202F || n == 0x205F
    || n == 0x3000

def trim (cs : List Char) : List Char :=
  ((cs.dropWhile isSpace).reverse.dropWhile isSpace).reverse

def pieces (cs : List Char) : List (List Char) := cs.splitOn '|'

/-- A mask in base sixteen, with or without a sign in front. -/
def ofHex? (cs : List Char) : Option FunctionFlags := do
  let digits := if cs.head? = some '+' then cs.tail else cs
  guard !digits.isEmpty
  let values ← digits.mapM Json.hexValue?
  let n := values.foldl (fun n d => n * 16 + d) 0
  guard (n < UInt32.size)
  return ofBits (UInt32.ofNat n)

def ofPiece? (cs : List Char) : Option FunctionFlags :=
  match trim cs with
  | '0' :: 'x' :: digits => ofHex? digits
  | name => (named.find? (·.1.toList = name)).map (·.2)

def ofText? (s : String) : Option FunctionFlags :=
  let cs := s.toList
  if (trim cs).isEmpty then some empty
  else do return (← (pieces cs).mapM ofPiece?).foldl union empty

end FunctionFlags

/-! ### Writing -/

namespace SymbolId

def toJson (id : SymbolId) : Json := .ofNat id.toNat

end SymbolId

/-- A map by id has the numbers of its keys as keys. -/
def IdMap.toJson {α : Type} (item : α → Json) (m : IdMap α) : Json :=
  .ofFields (m.entries.map fun (id, a) => (toString id.toNat, item a))

def CallEdge.toJson (edge : CallEdge) : Json :=
  .ofFields [("callee", edge.callee.toJson), ("kind", .ofText edge.kind.text),
    ("preserved", .bool edge.preserved)]

def FunctionSummary.toJson (f : FunctionSummary) : Json :=
  .ofFields [("id", f.id.toJson), ("debug_name", .ofOption (f.debugName.map .ofText)),
    ("flags", .ofText f.flags.text), ("calls", .array (f.calls.map CallEdge.toJson))]

def TypeSummary.toJson (t : TypeSummary) : Json :=
  .ofFields [("id", t.id.toJson), ("base", .ofOption (t.base.map SymbolId.toJson)),
    ("vtable_slots", .array (t.slots.map SymbolId.toJson)),
    ("witness_entries", t.witnesses.toJson SymbolId.toJson)]

def Store.toJson (s : Store) : Json :=
  .ofFields [("module_name", .ofText s.moduleName), ("liveness_computed", .bool s.livenessComputed),
    ("functions", s.functions.toJson FunctionSummary.toJson),
    ("types", s.types.toJson TypeSummary.toJson),
    ("symbols", .array (s.symbols.names.map .ofText))]

/-! ### Reading -/

def SymbolId.ofJson? (value : Json) : Option SymbolId := value.asWord?.map .mk

/-- A map by id has the numbers of its keys as keys; of two entries with one key the later
counts. -/
def IdMap.ofJson? {α : Type} (item : Json → Option α) (value : Json) : Option (IdMap α) := do
  let entries ← (← value.asMembers?).mapM fun (key, value) => do
    return (SymbolId.mk (← Json.word? key), ← item value)
  return .ofList entries

def Json.asList? {α : Type} (item : Json → Option α) (value : Json) : Option (List α) := do
  (← value.asArray?).mapM item

/-- A kind of call is its word, alone or as the key of nothing. -/
def CallKind.ofJson? : Json → Option CallKind
  | .object [(key, .null)] => Json.unescape? key >>= ofText?
  | value => value.asText? >>= ofText?

def CallEdge.ofJson? (value : Json) : Option CallEdge := do
  let fields ← value.asRecord? ["callee", "kind", "preserved"]
  return {
    callee := ← fields.lookup "callee" >>= SymbolId.ofJson?
    kind := ← fields.lookup "kind" >>= CallKind.ofJson?
    preserved := ← fields.lookup "preserved" >>= Json.asBool? }

/-- The fields of a function; the readable name may be missing. -/
def FunctionSummary.ofJson? (value : Json) : Option FunctionSummary := do
  let fields ← value.asRecord? ["id", "debug_name", "flags", "calls"]
  return {
    id := ← fields.lookup "id" >>= SymbolId.ofJson?
    debugName := ← ((fields.lookup "debug_name").getD .null).asOption? Json.asText?
    flags := ← fields.lookup "flags" >>= Json.asText? >>= FunctionFlags.ofText?
    calls := ← fields.lookup "calls" >>= Json.asList? CallEdge.ofJson? }

/-- The fields of a type; the base may be missing. -/
def TypeSummary.ofJson? (value : Json) : Option TypeSummary := do
  let fields ← value.asRecord? ["id", "base", "vtable_slots", "witness_entries"]
  return {
    id := ← fields.lookup "id" >>= SymbolId.ofJson?
    base := ← ((fields.lookup "base").getD .null).asOption? SymbolId.ofJson?
    slots := ← fields.lookup "vtable_slots" >>= Json.asList? SymbolId.ofJson?
    witnesses := ← fields.lookup "witness_entries" >>= IdMap.ofJson? SymbolId.ofJson? }

def Store.ofJson? (value : Json) : Option Store := do
  let fields ← value.asRecord?
    ["module_name", "liveness_computed", "functions", "types", "symbols"]
  return {
    moduleName := ← fields.lookup "module_name" >>= Json.asText?
    livenessComputed := ← fields.lookup "liveness_computed" >>= Json.asBool?
    functions := ← fields.lookup "functions" >>= IdMap.ofJson? FunctionSummary.ofJson?
    types := ← fields.lookup "types" >>= IdMap.ofJson? TypeSummary.ofJson?
    symbols := .ofList (← fields.lookup "symbols" >>= Json.asList? Json.asText?) }

def Store.ofJsonText? (s : String) : Option Store := Json.parse? s >>= ofJson?

end LinkSummary
