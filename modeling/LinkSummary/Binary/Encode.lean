import LinkSummary.Binary.Layout
import LinkSummary.Utf8

/-!
# Writing a summary file

Names, functions and types are written in id order, each number in its shortest form, so a store
has exactly one file with readable names and one without.
-/

namespace LinkSummary

namespace Layout

def sized (bytes : List UInt8) : List UInt8 := Varint.encode bytes.length ++ bytes

def frame (id : Nat) (payload : List UInt8) : List UInt8 := Varint.encode id ++ sized payload

/-- A text in UTF-8 after the number of its bytes. -/
def text (s : String) : List UInt8 := sized (Utf8.encode s)

def symbol (id : SymbolId) : List UInt8 := Varint.encode id.toNat

def flag (b : Bool) : List UInt8 := Varint.encode b.toNat

def counted {α : Type} (item : α → List UInt8) (items : List α) : List UInt8 :=
  Varint.encode items.length ++ items.flatMap item

def call (edge : CallEdge) : List UInt8 :=
  Varint.encode edge.kind.toStored ++ symbol edge.callee ++ flag edge.preserved

def function (f : FunctionSummary) : List UInt8 :=
  symbol f.id ++ Varint.encode f.flags.bits.toNat ++ counted call f.calls

/-- The fields of a type. A type without base has base `0`. -/
def type (t : TypeSummary) : List UInt8 :=
  symbol t.id ++ Varint.encode (SymbolId.toStored t.base).toNat ++ counted symbol t.slots
    ++ counted (fun (requirement, implementation) => symbol requirement ++ symbol implementation)
      t.witnesses.entries

def moduleSummary (s : Store) : List UInt8 :=
  frame SummaryRecord.metadata.id (flag s.livenessComputed ++ text s.moduleName)
    ++ s.symbols.names.flatMap (fun name => frame SummaryRecord.symbolName.id (text name))
    ++ s.functions.values.flatMap (fun f => frame SummaryRecord.function.id (function f))
    ++ s.types.values.flatMap (fun t => frame SummaryRecord.type.id (type t))

/-- The record of a function's readable name, if it has one. -/
def debugName (f : FunctionSummary) : List UInt8 :=
  match f.debugName with
  | some name => frame debugNameId (symbol f.id ++ text name)
  | none => []

/-- The block of the readable names; there is none without names. -/
def debugNames (s : Store) : List UInt8 :=
  match s.functions.values.flatMap debugName with
  | [] => []
  | records => frame Block.debugNames.id records

end Layout

/-- The bytes of a store's summary file, with or without the readable names of functions. -/
def Store.encode (s : Store) (embedDebugNames : Bool := false) : List UInt8 :=
  Layout.signature ++ Varint.encode Layout.version
    ++ Layout.frame Layout.Block.moduleSummary.id (Layout.moduleSummary s)
    ++ if embedDebugNames then Layout.debugNames s else []

end LinkSummary
