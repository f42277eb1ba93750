import LinkSummary.Binary.Varint
import LinkSummary.Store.Vtable

/-!
# Layout of a summary file

A file is the signature, the format version, and blocks. A block is a frame: its id, the length of
its payload, and the payload. The payloads of the known blocks are frames again, called records.
Frames with an unknown id are skipped, and so are bytes that follow the fields of a record.
-/

namespace LinkSummary.Layout

def signature : List UInt8 := [0x4D, 0x4F, 0x44, 0x53]

def version : Nat := 1

/-- The known blocks of a file. -/
inductive Block where
  | moduleSummary
  | debugNames
deriving DecidableEq

namespace Block

def id : Block → Nat
  | moduleSummary => 8
  | debugNames => 9

def ofId? : Nat → Option Block
  | 8 => some moduleSummary
  | 9 => some debugNames
  | _ => none

@[simp] theorem ofId?_id (b : Block) : ofId? b.id = some b := by
  cases b <;> rfl

end Block

/-- The known records of the module summary. -/
inductive SummaryRecord where
  | metadata
  /-- A name; the names have the ids `1`, `2`, … in file order. -/
  | symbolName
  | function
  | type
deriving DecidableEq

namespace SummaryRecord

def id : SummaryRecord → Nat
  | metadata => 1
  | symbolName => 2
  | function => 3
  | type => 4

def ofId? : Nat → Option SummaryRecord
  | 1 => some metadata
  | 2 => some symbolName
  | 3 => some function
  | 4 => some type
  | _ => none

@[simp] theorem ofId?_id (r : SummaryRecord) : ofId? r.id = some r := by
  cases r <;> rfl

end SummaryRecord

/-- The id of a readable name among the records of the debug names. -/
def debugNameId : Nat := 1

/-- The end of the name of every summary file. -/
def fileSuffix : String := ".swiftmodule.summary"

def fileName (moduleName : String) : String := moduleName ++ fileSuffix

end LinkSummary.Layout
