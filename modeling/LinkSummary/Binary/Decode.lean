import LinkSummary.Binary.Cursor

/-!
# Reading a summary file

Every record is checked against the store read so far: a function or type can mention only names
listed before it, and nothing is defined twice. The readable names are attached last, so their
block may stand before the module summary.
-/

namespace LinkSummary

/-- A readable name that is still to be attached. -/
structure PendingName where
  offset : Nat
  function : SymbolId
  name : String
deriving DecidableEq

namespace Layout

/-! ### Records -/

def readCall : Reader CallEdge := do
  let offset ← Cursor.position
  let stored ← Cursor.varint
  match CallKind.ofStored stored with
  | none => throw (.malformedRecord offset (.unknownCallKind stored))
  | some kind =>
    let callee ← Cursor.symbol
    let preserved ← Cursor.varint
    return { callee, kind, preserved := preserved != 0 }

def readFunction : Reader FunctionSummary := do
  let id ← Cursor.symbol
  let flags ← Cursor.word .functionFlags
  let calls ← Cursor.counted readCall
  return { id, flags := (FunctionFlags.ofBits flags).known, calls }

/-- Read a requirement with its implementation. -/
def readWitness : Reader (SymbolId × SymbolId) := do
  let requirement ← Cursor.symbol
  let implementation ← Cursor.symbol
  return (requirement, implementation)

def readType : Reader TypeSummary := do
  let id ← Cursor.symbol
  let base ← Cursor.word .baseType
  let slots ← Cursor.counted Cursor.symbol
  let witnesses ← Cursor.counted readWitness
  return { id, base := SymbolId.ofStored base, slots, witnesses := .ofList witnesses }

/-- Read the fields of the metadata: the store that it begins. -/
def readMetadata : Reader Store := do
  let flags ← Cursor.varint
  let moduleName ← Cursor.text
  return { moduleName, livenessComputed := flags % 2 == 1 }

def readDebugName (offset : Nat) : Reader PendingName := do
  let function ← Cursor.word .symbol
  let name ← Cursor.text
  return { offset, function := ⟨function⟩, name }

/-! ### Blocks -/

/-- An answer of the store, a refusal being a fault of the record at the offset. -/
def accepted {α : Type} (offset : Nat) : Except SummaryError α → Except DecodeError α
  | .ok a => .ok a
  | .error e => .error (.malformedRecord offset (.refused e))

/-- Add a record of the module summary to the store read so far. -/
def addRecord (s : Store) (record : Frame) : Except DecodeError Store :=
  match SummaryRecord.ofId? record.id with
  | some .metadata => .error (.malformedHeader record.offset .repeatedMetadata)
  | some .symbolName => do
    let (name, _) ← Cursor.text record.payload
    if name ∈ s.symbols.names then .error (.malformedRecord record.offset (.repeatedName name))
    else return (s.intern name).2
  | some .function => do
    let (f, _) ← readFunction record.payload
    accepted record.offset (s.insertFunction f)
  | some .type => do
    let (t, _) ← readType record.payload
    accepted record.offset (s.insertType t)
  | none => .ok s

/-- Read the payload of a module summary; the metadata comes first. -/
def readModuleSummary (block : Frame) : Except DecodeError Store :=
  if block.payload.rest.isEmpty then .error (.malformedHeader block.offset .missingMetadata)
  else do
    let (record, others) ← Cursor.frame block.payload
    if record.id ≠ SummaryRecord.metadata.id then
      throw (.malformedHeader record.offset (.otherThanMetadata record.id))
    let (start, _) ← readMetadata record.payload
    let s ← others.foldFrames addRecord start
    accepted block.offset s.checkVtables
    return s

/-- Add a record of the debug names to those read so far. -/
def addDebugName (names : List PendingName) (record : Frame) :
    Except DecodeError (List PendingName) :=
  if record.id = debugNameId then do
    let (name, _) ← readDebugName record.offset record.payload
    return names ++ [name]
  else .ok names

/-- What the blocks read so far contain. -/
structure Contents where
  summary : Option Store := none
  names : List PendingName := []
deriving DecidableEq

def addBlock (contents : Contents) (block : Frame) : Except DecodeError Contents :=
  match Block.ofId? block.id with
  | some .moduleSummary =>
    if contents.summary.isSome then .error (.malformedHeader block.offset .repeatedSummary)
    else do
      let s ← readModuleSummary block
      return { contents with summary := some s }
  | some .debugNames => do
    let names ← block.payload.foldFrames addDebugName contents.names
    return { contents with names }
  | none => .ok contents

def attachName (s : Store) (pending : PendingName) : Except DecodeError Store :=
  accepted pending.offset (s.setDebugName pending.function (some pending.name))

def readHeader : Reader Unit := do
  let start ← Cursor.bytes signature.length
  if start.rest ≠ signature then throw (.malformedHeader 0 .invalidSignature)
  let offset ← Cursor.position
  let found ← Cursor.varint
  if found = 0 then throw (.malformedHeader offset .versionZero)
  if found > version then throw (.versionMismatch offset found)

end Layout

def Store.decode (bytes : List UInt8) : Except DecodeError Store := do
  let (_, blocks) ← Layout.readHeader (.ofBytes bytes)
  let contents ← blocks.foldFrames Layout.addBlock {}
  match contents.summary with
  | none => throw (.malformedHeader bytes.length .missingSummary)
  | some s => contents.names.foldlM Layout.attachName s

end LinkSummary
