import LinkSummary.Binary.Layout
import LinkSummary.Utf8

/-!
# Reading bytes in place

A cursor stands inside a file: it has the bytes of its frame that are still to be read and their
offset in the file. A reader moves the cursor on, or fails with the offset and the cause.
-/

namespace LinkSummary

/-- The fields that hold a 32-bit number. -/
inductive NumberField where
  | symbol
  | functionFlags
  | baseType
deriving DecidableEq

def NumberField.text : NumberField → String
  | symbol => "symbol id"
  | functionFlags => "function flags"
  | baseType => "base type"

/-- What can be wrong with the frames of a file. -/
inductive HeaderFault where
  | invalidSignature
  | versionZero
  | repeatedSummary
  | missingSummary
  | missingMetadata
  | otherThanMetadata (found : Nat)
  | repeatedMetadata
deriving DecidableEq

def HeaderFault.text : HeaderFault → String
  | invalidSignature => "invalid signature"
  | versionZero => "invalid format version 0"
  | repeatedSummary => "more than one MODULE_SUMMARY block"
  | missingSummary => "missing MODULE_SUMMARY block"
  | missingMetadata => "missing MODULE_METADATA record"
  | otherThanMetadata found => s!"expected MODULE_METADATA, found record {found}"
  | repeatedMetadata => "more than one MODULE_METADATA record"

/-- What can be wrong with the fields of a record. -/
inductive RecordFault where
  | varintOverflow
  /-- A number of more than 32 bits in a field that holds 32. -/
  | tooWide (field : NumberField) (value : Nat)
  | invalidText
  | absentSymbol
  | unknownCallKind (stored : Nat)
  | repeatedName (name : String)
  | refused (cause : SummaryError)
deriving DecidableEq

def RecordFault.text : RecordFault → String
  | varintOverflow => "varint overflows 64 bits"
  | tooWide field value => s!"{field.text} {value} does not fit in 32 bits"
  | invalidText => "name is not valid UTF-8"
  | absentSymbol => "reserved symbol id 0 in a required field"
  | unknownCallKind stored => s!"unknown call kind {stored}"
  | repeatedName name => s!"symbol '{name}' listed twice"
  | refused cause => cause.message

/-- Why bytes are no summary file. -/
inductive DecodeError where
  | truncated (offset needed available : Nat)
  | malformedHeader (offset : Nat) (fault : HeaderFault)
  | versionMismatch (offset found : Nat)
  | malformedRecord (offset : Nat) (fault : RecordFault)
deriving DecidableEq

namespace DecodeError

def offset : DecodeError → Nat
  | truncated offset _ _ => offset
  | malformedHeader offset _ => offset
  | versionMismatch offset _ => offset
  | malformedRecord offset _ => offset

def code : DecodeError → String
  | truncated .. => "E-CODEC-001"
  | malformedHeader .. => "E-CODEC-002"
  | versionMismatch .. => "E-CODEC-003"
  | malformedRecord .. => "E-CODEC-004"

def message : DecodeError → String
  | truncated offset needed available =>
    s!"truncated stream at offset {offset}: needed {needed} bytes, {available} available"
  | malformedHeader offset fault => s!"malformed header at offset {offset}: {fault.text}"
  | versionMismatch _ found =>
    s!"summary format version {found} is newer than supported version {Layout.version}"
  | malformedRecord offset fault => s!"malformed record at offset {offset}: {fault.text}"

def needsRegeneration : DecodeError → Bool
  | versionMismatch .. => true
  | _ => false

end DecodeError

/-- A place in a frame of a file. -/
structure Cursor where
  rest : List UInt8
  offset : Nat
deriving DecidableEq

/-- A step of reading: a value and the place after it, or an error. -/
abbrev Reader := StateT Cursor (Except DecodeError)

/-- A frame of a file. -/
structure Frame where
  offset : Nat
  id : Nat
  payload : Cursor
deriving DecidableEq

namespace Cursor

def ofBytes (bytes : List UInt8) : Cursor := ⟨bytes, 0⟩

def position : Reader Nat := fun c => .ok (c.offset, c)

def varint : Reader Nat := fun c =>
  match Varint.decode c.rest with
  | .ok (n, rest) => .ok (n, ⟨rest, c.offset + (c.rest.length - rest.length)⟩)
  | .error .truncated => .error (.truncated (c.offset + c.rest.length) 1 0)
  | .error .overflow => .error (.malformedRecord c.offset .varintOverflow)

def word (field : NumberField) : Reader UInt32 := do
  let offset ← position
  let value ← varint
  if value < UInt32.size then return UInt32.ofNat value
  else throw (.malformedRecord offset (.tooWide field value))

/-- Read some bytes; the cursor over them keeps their place in the file. -/
def bytes (count : Nat) : Reader Cursor := fun c =>
  if count ≤ c.rest.length then
    .ok (⟨c.rest.take count, c.offset⟩, ⟨c.rest.drop count, c.offset + count⟩)
  else .error (.truncated c.offset count c.rest.length)

/-- Read a text after the number of its bytes. -/
def text : Reader String := do
  let content ← bytes (← varint)
  match Utf8.decode? content.rest with
  | some s => return s
  | none => throw (.malformedRecord content.offset .invalidText)

def symbol : Reader SymbolId := do
  let offset ← position
  let id : SymbolId := ⟨← word .symbol⟩
  if id.isAbsent then throw (.malformedRecord offset .absentSymbol) else return id

def repeated {α : Type} (item : Reader α) : Nat → Reader (List α)
  | 0 => return []
  | count + 1 => do
    let first ← item
    let others ← repeated item count
    return first :: others

/-- Read a list after the number of its items. -/
def counted {α : Type} (item : Reader α) : Reader (List α) := do
  repeated item (← varint)

def frame : Reader Frame := fun c => do
  let (id, rest) ← varint c
  let (length, rest) ← varint rest
  let (payload, rest) ← bytes length rest
  return ({ offset := c.offset, id, payload }, rest)

/-! ### All frames -/

theorem varint_shorter {c rest : Cursor} {n : Nat} (h : varint c = .ok (n, rest)) :
    rest.rest.length < c.rest.length := by
  simp only [varint] at h
  split at h <;> cases h
  rename_i hd
  exact Varint.decode_shorter hd

theorem bytes_not_longer {count : Nat} {c content rest : Cursor}
    (h : bytes count c = .ok (content, rest)) : rest.rest.length ≤ c.rest.length := by
  simp only [bytes] at h
  split at h <;> cases h
  simp

theorem frame_shorter {c rest : Cursor} {f : Frame} (h : frame c = .ok (f, rest)) :
    rest.rest.length < c.rest.length := by
  simp only [frame, bind, Except.bind, pure, Except.pure] at h
  split at h
  · cases h
  · rename_i id hid
    split at h
    · cases h
    · rename_i length hlength
      split at h
      · cases h
      · rename_i content hcontent
        cases h
        have h1 := varint_shorter hid
        have h2 := varint_shorter hlength
        have h3 := bytes_not_longer hcontent
        omega

/-- The frames from here on, up to the first that cannot be read, and what is wrong with that. -/
def frames (c : Cursor) : List Frame × Option DecodeError :=
  if c.rest.isEmpty then ([], none)
  else
    match _ : frame c with
    | .error e => ([], some e)
    | .ok (f, rest) =>
      let (fs, e) := rest.frames
      (f :: fs, e)
termination_by c.rest.length
decreasing_by exact frame_shorter ‹_›

/-- Deal with each frame from here on in turn, the first error ending it. -/
def foldFrames {σ : Type} (step : σ → Frame → Except DecodeError σ) (start : σ) (c : Cursor) :
    Except DecodeError σ := do
  let (fs, fault) := c.frames
  let last ← fs.foldlM step start
  match fault with
  | some e => throw e
  | none => return last

end Cursor

end LinkSummary
