import LinkSummary.Binary.Layout
import LinkSummary.Proofs.Store.WellFormed
import LinkSummary.Utf8

/-!
# The language of summary files

Which bytes are a summary file, and of which store, told without a reader. A format relates bytes
to the value that they spell. A value may be spelled in several ways: numbers may have superfluous
zero bytes, bytes may follow the fields of a record, and frames with an unknown id may stand
anywhere. On top of the formats are the conditions that tie the records of a file together.
-/

namespace LinkSummary

/-! ### What a file tells -/

/-- The tables of a type as they are listed; a requirement may have several witnesses. -/
structure TypeRecord where
  id : SymbolId
  base : Option SymbolId
  slots : List SymbolId
  witnesses : List (SymbolId × SymbolId)
deriving DecidableEq

/-- A record of the module summary after the first. -/
inductive Record where
  | name (name : String)
  | function (f : FunctionSummary)
  | type (t : TypeRecord)
  | other
deriving DecidableEq

/-- What a module summary lists. -/
structure Listing where
  moduleName : String
  livenessComputed : Bool
  records : List Record
deriving DecidableEq

inductive FileBlock where
  | summary (listing : Listing)
  | debugNames (names : List (SymbolId × String))
  | other
deriving DecidableEq

/-- What a file tells: its one module summary, and the readable names of all its blocks. -/
structure SummaryFile where
  listing : Listing
  debugNames : List (SymbolId × String)
deriving DecidableEq

namespace TypeRecord

/-- What is kept of a type: for each requirement its last witness. -/
def summary (t : TypeRecord) : TypeSummary where
  id := t.id
  base := t.base
  slots := t.slots
  witnesses := .ofList t.witnesses

def keptWitnesses (t : TypeRecord) : List (SymbolId × SymbolId) := t.summary.witnesses.entries

/-- The symbols that a type mentions, with some of its witnesses. -/
def mentioned (t : TypeRecord) (witnesses : List (SymbolId × SymbolId)) : List SymbolId :=
  t.id :: (t.base.toList ++ t.slots ++ witnesses.flatMap fun (requirement, implementation) =>
    [requirement, implementation])

end TypeRecord

namespace Record

def name? : Record → Option String
  | .name text => some text
  | _ => none

def function? : Record → Option FunctionSummary
  | .function f => some f
  | _ => none

def type? : Record → Option TypeRecord
  | .type t => some t
  | _ => none

/-- The symbols that a record mentions, with some of the witnesses of a type. -/
def mentioned (witnesses : TypeRecord → List (SymbolId × SymbolId)) : Record → List SymbolId
  | .function f => f.mentioned
  | .type t => t.mentioned (witnesses t)
  | _ => []

end Record

namespace FileBlock

def listing? : FileBlock → Option Listing
  | summary listing => some listing
  | _ => none

def names : FileBlock → List (SymbolId × String)
  | debugNames names => names
  | _ => []

end FileBlock

/-! ### Numbers -/

namespace Varint

/-- Bytes of seven bits each, lowest first; every byte but the last has its high bit set. -/
inductive Digits : List UInt8 → Nat → Prop
  | last {b : UInt8} : b.toNat < 128 → Digits [b] b.toNat
  | more {b : UInt8} {bs : List UInt8} {n : Nat} : 128 ≤ b.toNat → Digits bs n →
      Digits (b :: bs) (b.toNat % 128 + 128 * n)

/-- A number of at most 64 bits in at most ten bytes. -/
structure Spells (bytes : List UInt8) (n : Nat) : Prop where
  digits : Digits bytes n
  length_le : bytes.length ≤ 10
  lt : n < 2 ^ 64

end Varint

/-! ### Formats -/

/-- Bytes and the values that they spell. -/
abbrev Format (α : Type) := List UInt8 → α → Prop

namespace Format

open Layout (SummaryRecord Block)

variable {α : Type}

/-- Values one after the other. -/
inductive Sequence (F : Format α) : Format (List α)
  | nil : Sequence F [] []
  | cons {first others : List UInt8} {a : α} {as : List α} :
      F first a → Sequence F others as → Sequence F (first ++ others) (a :: as)

/-- Values after their number. -/
inductive Counted (F : Format α) : Format (List α)
  | mk {count items : List UInt8} {as : List α} :
      Varint.Spells count as.length → Sequence F items as → Counted F (count ++ items) as

/-- A value, whatever follows it. -/
def Leading (F : Format α) : Format α :=
  fun bytes a => ∃ first rest, bytes = first ++ rest ∧ F first a

/-- A frame: its id, the length of its payload, and the payload, which is read by its id. -/
inductive Framed (F : Nat → Format α) : Format α
  | mk {number length payload : List UInt8} {id : Nat} {a : α} :
      Varint.Spells number id → Varint.Spells length payload.length → F id payload a →
        Framed F (number ++ (length ++ payload)) a

/-! ### Fields -/

/-- A symbol id in a field that requires one. -/
structure Symbol (bytes : List UInt8) (id : SymbolId) : Prop where
  spells : Varint.Spells bytes id.toNat
  ne_absent : id ≠ .absent

inductive Text : Format String
  | mk {length : List UInt8} {s : String} :
      Varint.Spells length (Utf8.encode s).length → Text (length ++ Utf8.encode s) s

inductive CallFields : Format CallEdge
  | mk {b₁ b₂ b₃ : List UInt8} {kind : CallKind} {callee : SymbolId} {preserved : Nat} :
      Varint.Spells b₁ kind.toStored → Symbol b₂ callee → Varint.Spells b₃ preserved →
        CallFields (b₁ ++ (b₂ ++ b₃)) { callee, kind, preserved := preserved != 0 }

/-- Flags without a meaning are dropped. -/
inductive FunctionFields : Format FunctionSummary
  | mk {b₁ b₂ b₃ : List UInt8} {id : SymbolId} {flags : UInt32} {calls : List CallEdge} :
      Symbol b₁ id → Varint.Spells b₂ flags.toNat → Counted CallFields b₃ calls →
        FunctionFields (b₁ ++ (b₂ ++ b₃))
          { id, flags := (FunctionFlags.ofBits flags).known, calls }

inductive WitnessFields : Format (SymbolId × SymbolId)
  | mk {b₁ b₂ : List UInt8} {requirement implementation : SymbolId} :
      Symbol b₁ requirement → Symbol b₂ implementation →
        WitnessFields (b₁ ++ b₂) (requirement, implementation)

/-- A base of `0` stands for none. -/
inductive TypeFields : Format TypeRecord
  | mk {b₁ b₂ b₃ b₄ : List UInt8} {id : SymbolId} {base : UInt32} {slots : List SymbolId}
      {witnesses : List (SymbolId × SymbolId)} :
      Symbol b₁ id → Varint.Spells b₂ base.toNat → Counted Symbol b₃ slots →
        Counted WitnessFields b₄ witnesses →
          TypeFields (b₁ ++ (b₂ ++ (b₃ ++ b₄)))
            { id, base := SymbolId.ofStored base, slots, witnesses }

/-- Whether liveness is computed is the lowest bit of the flags. -/
inductive MetadataFields : Format (Bool × String)
  | mk {b₁ b₂ : List UInt8} {flags : Nat} {moduleName : String} :
      Varint.Spells b₁ flags → Text b₂ moduleName →
        MetadataFields (b₁ ++ b₂) (flags % 2 == 1, moduleName)

inductive DebugNameFields : Format (SymbolId × String)
  | mk {b₁ b₂ : List UInt8} {id : SymbolId} {name : String} :
      Varint.Spells b₁ id.toNat → Text b₂ name → DebugNameFields (b₁ ++ b₂) (id, name)

/-! ### Records -/

/-- The first record. -/
inductive MetadataPayload : Nat → Format (Bool × String)
  | mk {payload : List UInt8} {metadata : Bool × String} :
      Leading MetadataFields payload metadata →
        MetadataPayload SummaryRecord.metadata.id payload metadata

/-- A record after the metadata, by its id. -/
inductive RecordPayload : Nat → Format Record
  | name {payload : List UInt8} {name : String} :
      Leading Text payload name → RecordPayload SummaryRecord.symbolName.id payload (.name name)
  | function {payload : List UInt8} {f : FunctionSummary} :
      Leading FunctionFields payload f →
        RecordPayload SummaryRecord.function.id payload (.function f)
  | type {payload : List UInt8} {t : TypeRecord} :
      Leading TypeFields payload t → RecordPayload SummaryRecord.type.id payload (.type t)
  | other {id : Nat} {payload : List UInt8} :
      (∀ r : SummaryRecord, id ≠ r.id) → RecordPayload id payload .other

/-- A record of readable names, by its id; it has one name or none. -/
inductive DebugNamePayload : Nat → Format (Option (SymbolId × String))
  | name {payload : List UInt8} {entry : SymbolId × String} :
      Leading DebugNameFields payload entry →
        DebugNamePayload Layout.debugNameId payload (some entry)
  | other {id : Nat} {payload : List UInt8} :
      id ≠ Layout.debugNameId → DebugNamePayload id payload none

/-! ### Blocks -/

/-- The records of a module summary: the metadata, and then any others. -/
inductive ModuleSummary : Format Listing
  | mk {first others : List UInt8} {livenessComputed : Bool} {moduleName : String}
      {records : List Record} :
      Framed MetadataPayload first (livenessComputed, moduleName) →
        Sequence (Framed RecordPayload) others records →
          ModuleSummary (first ++ others) { moduleName, livenessComputed, records }

/-- A block, by its id. -/
inductive BlockPayload : Nat → Format FileBlock
  | summary {payload : List UInt8} {listing : Listing} :
      ModuleSummary payload listing →
        BlockPayload Block.moduleSummary.id payload (.summary listing)
  | debugNames {payload : List UInt8} {entries : List (Option (SymbolId × String))} :
      Sequence (Framed DebugNamePayload) payload entries →
        BlockPayload Block.debugNames.id payload (.debugNames entries.reduceOption)
  | other {id : Nat} {payload : List UInt8} :
      (∀ b : Block, id ≠ b.id) → BlockPayload id payload .other

/-- A file: signature, version, and blocks, one of which is a module summary. -/
inductive WholeFile : Format SummaryFile
  | mk {version rest : List UInt8} {blocks : List FileBlock} {listing : Listing} :
      Varint.Spells version Layout.version → Sequence (Framed BlockPayload) rest blocks →
        blocks.filterMap FileBlock.listing? = [listing] →
          WholeFile (Layout.signature ++ (version ++ rest))
            { listing, debugNames := blocks.flatMap FileBlock.names }

end Format

/-! ### Conditions on the records -/

namespace Listing

def names (records : List Record) : List String := records.filterMap Record.name?

def functions (records : List Record) : List FunctionSummary := records.filterMap Record.function?

def types (records : List Record) : List TypeRecord := records.filterMap Record.type?

/-- The records of names, functions and types fit together: nothing is listed twice, and a function
or type mentions only names listed before it. Of the witnesses some are looked at. -/
structure Ordered (witnesses : TypeRecord → List (SymbolId × SymbolId)) (records : List Record) :
    Prop where
  names : (names records).Nodup
  functions : ((functions records).map (·.id)).Nodup
  types : ((types records).map (·.id)).Nodup
  inRange : ∀ before record after, records = before ++ record :: after →
    ∀ id ∈ record.mentioned witnesses, 1 ≤ id.toNat ∧ id.toNat ≤ (Listing.names before).length

/-- No type has fewer slots than its base. -/
def SlotsCoverBases (records : List Record) : Prop :=
  ∀ t ∈ types records, ∀ base ∈ types records, t.base = some base.id →
    base.slots.length ≤ t.slots.length

/-- The store that a module summary lists. -/
def store (l : Listing) : Store where
  moduleName := l.moduleName
  livenessComputed := l.livenessComputed
  functions := .ofList ((functions l.records).map fun f => (f.id, f))
  types := .ofList ((types l.records).map fun t => (t.id, t.summary))
  symbols := .ofList (names l.records)

end Listing

namespace SummaryFile

/-- All that a file tells fits together. -/
structure Consistent (witnesses : TypeRecord → List (SymbolId × SymbolId)) (file : SummaryFile) :
    Prop where
  ordered : Listing.Ordered witnesses file.listing.records
  slots : Listing.SlotsCoverBases file.listing.records
  debugNames : ∀ entry ∈ file.debugNames,
    entry.1 ∈ (Listing.functions file.listing.records).map (·.id)

/-- A function with the last of some readable names that is for it, if one is. -/
def named (names : List (SymbolId × String)) (f : FunctionSummary) : FunctionSummary :=
  { f with debugName := ((IdMap.ofList names).get? f.id).or f.debugName }

/-- The store that a file tells. -/
def store (file : SummaryFile) : Store :=
  { file.listing.store with
    functions := file.listing.store.functions.map (named file.debugNames) }

end SummaryFile

end LinkSummary
