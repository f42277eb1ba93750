import LinkSummary.Yaml.Char
import LinkSummary.Yaml.Resolution
import LinkSummary.Yaml.Scalar

/-!
# Tags

A tag is a sequence of octets: an address whose characters may be escaped by their octets in base
sixteen. It is written in full between `<` and `>`, or as a handle and a suffix, the handle standing
for a prefix that a directive tells.
-/

namespace LinkSummary.Yaml

/-- The octets of a tag, a handle or a prefix. -/
abbrev Octets := List UInt8

def octetsOf (s : String) : Octets := s.toList.map fun c => UInt8.ofNat c.toNat

def ScalarKind.tag : ScalarKind → Octets
  | nothing => octetsOf "tag:yaml.org,2002:null"
  | truth => octetsOf "tag:yaml.org,2002:bool"
  | integer => octetsOf "tag:yaml.org,2002:int"
  | float => octetsOf "tag:yaml.org,2002:float"

def ScalarKind.ofTag? (tag : Octets) : Option ScalarKind :=
  [.nothing, .truth, .integer, .float].find? (·.tag == tag)

/-- Whether a tag begins with the mark, and so is not an address. -/
def isLocalTag (tag : Octets) : Bool := tag.head? == (octetsOf "!").head?

/-- A tag as it is written: a handle and a suffix. The full form has an empty handle. -/
structure WrittenTag where
  handle : Octets
  suffix : Octets
deriving DecidableEq

/-- The prefixes of handles that stand without a directive. -/
def defaultHandles : List (Octets × Octets) :=
  [(octetsOf "!", octetsOf "!"), (octetsOf "!!", octetsOf "tag:yaml.org,2002:")]

/-- The tag that a written one stands for, given the prefixes of handles. -/
def WrittenTag.resolve? (handles : List (Octets × Octets)) (t : WrittenTag) : Option Octets :=
  if t.handle.isEmpty then some t.suffix
  else (handles.lookup t.handle).map (· ++ t.suffix)

/-! ### Addresses -/

/-- The characters of an address; commas and brackets only where nothing else can follow. -/
def isAddressChar (wide : Bool) (c : Char) : Bool :=
  isWordChar c || c ∈ [';', '/', '?', ':', '@', '&', '=', '+', '$', '.', '%', '!', '~', '*', '\'',
    '(', ')'] || (wide && c ∈ [',', '[', ']'])

/-- The number of octets that follow a first octet of UTF-8. -/
def followers? (octet : Nat) : Option Nat :=
  if octet < 0x80 then some 0
  else if octet / 32 = 6 then some 1
  else if octet / 16 = 14 then some 2
  else if octet / 8 = 30 then some 3
  else none

/-- The octets of an address in reverse order, after `owed` more octets of a character are read from
escapes. -/
def readAddress (wide : Bool) (octets : Octets) (count owed : Nat) :
    List Char → Option (Octets × Nat)
  | '%' :: a :: b :: cs => do
    let octet := (← hexValue? a) * 16 + (← hexValue? b)
    let owed ←
      match owed with
      | 0 => followers? octet
      | owed + 1 => if octet / 64 = 2 then some owed else none
    readAddress wide (UInt8.ofNat octet :: octets) (count + 3) owed cs
  | c :: cs =>
    if owed ≠ 0 ∨ c = '%' then none
    else if isAddressChar wide c then
      readAddress wide (UInt8.ofNat c.toNat :: octets) (count + 1) 0 cs
    else some (octets, count)
  | [] => if owed = 0 then some (octets, count) else none

/-- An address of at least one character. The octet zero ends it. -/
def readSomeAddress (wide : Bool) (cs : List Char) : Option (Octets × Nat) := do
  let (octets, count) ← readAddress wide [] 0 0 cs
  guard (count ≠ 0)
  return (octets.reverse.takeWhile (· ≠ 0), count)

/-! ### Handles -/

/-- A handle: an exclamation mark, and perhaps letters and a second one. The second mark may be
missing after letters. -/
def readHandle : List Char → Option (List Char)
  | '!' :: cs =>
    let word := cs.takeWhile isWordChar
    if (cs.drop word.length).head? = some '!' then some ('!' :: word ++ ['!'])
    else some ('!' :: word)
  | _ => none

/-- Whether a handle ends with a second exclamation mark. -/
def isClosedHandle (handle : List Char) : Bool := handle.length > 1 && handle.getLast? == some '!'

def handleOctets (handle : List Char) : Octets := handle.map fun c => UInt8.ofNat c.toNat

/-- A tag in the full form, read from after `!<`. -/
def readFullTag (cs : List Char) : Option (WrittenTag × Nat) := do
  let (suffix, count) ← readSomeAddress true cs
  guard ((cs.drop count).head? = some '>')
  return (⟨[], suffix⟩, count + 1)

/-- A tag with a handle. A handle that is not closed is the single mark, and its letters begin the
suffix; the single mark alone is the full form of itself. -/
def readHandledTag (cs : List Char) : Option (WrittenTag × Nat) := do
  let handle ← readHandle cs
  let rest := cs.drop handle.length
  if isClosedHandle handle then
    let (suffix, count) ← readSomeAddress false rest
    return (⟨handleOctets handle, suffix⟩, handle.length + count)
  else
    let (octets, count) ← readAddress false [] 0 0 rest
    let suffix := (handleOctets handle.tail ++ octets.reverse).takeWhile (· ≠ 0)
    let tag := if suffix.isEmpty then ⟨[], octetsOf "!"⟩ else ⟨octetsOf "!", suffix⟩
    return (tag, handle.length + count)

def readTagText : List Char → Option (WrittenTag × Nat)
  | '!' :: '<' :: cs => (readFullTag cs).map fun (tag, count) => (tag, count + 2)
  | cs => readHandledTag cs

/-- A tag and the number of its characters. Within brackets a comma may follow it, else a gap
does. -/
def readTag (inFlow : Bool) (cs : List Char) : Option (WrittenTag × Nat) := do
  let (tag, count) ← readTagText cs
  let rest := cs.drop count
  guard ((inFlow && rest.head? == some ',') || atGap rest)
  return (tag, count)

end LinkSummary.Yaml
