/-!
# JSON values

A value keeps its numbers and texts as they are spelled, so that reading loses nothing: whether a
spelling stands for a number or a text of the kind wanted is asked only of the values that are used.
-/

namespace LinkSummary

/-- A JSON value. -/
inductive Json where
  | null
  | bool (b : Bool)
  | number (spelling : String)
  | text (spelling : String)
  | array (items : List Json)
  /-- Values in braces, each after its key as it is spelled between its quotes. -/
  | object (members : List (String × Json))
deriving Inhabited

namespace Json

/-! ### Spelling of texts -/

def hexDigit (n : Nat) : Char := "0123456789abcdef".toList.getD n '0'

/-- The spelling of a character within quotes. -/
def escapeChar (c : Char) : List Char :=
  match c with
  | '"' => ['\\', '"']
  | '\\' => ['\\', '\\']
  | '\x08' => ['\\', 'b']
  | '\x0c' => ['\\', 'f']
  | '\n' => ['\\', 'n']
  | '\r' => ['\\', 'r']
  | '\t' => ['\\', 't']
  | c =>
    if c.toNat < 0x20 then
      ['\\', 'u', '0', '0', hexDigit (c.toNat / 16), hexDigit (c.toNat % 16)]
    else [c]

def escape (s : String) : String := .ofList (s.toList.flatMap escapeChar)

def hexValue? (c : Char) : Option Nat :=
  if '0' ≤ c ∧ c ≤ '9' then some (c.toNat - '0'.toNat)
  else if 'a' ≤ c ∧ c ≤ 'f' then some (c.toNat - 'a'.toNat + 10)
  else if 'A' ≤ c ∧ c ≤ 'F' then some (c.toNat - 'A'.toNat + 10)
  else none

def hexWord? (a b c d : Char) : Option Nat := do
  return (((← hexValue? a) * 16 + (← hexValue? b)) * 16 + (← hexValue? c)) * 16 + (← hexValue? d)

/-- Whether a code unit begins a surrogate pair. -/
def isLeading (unit : Nat) : Bool := 0xD800 ≤ unit && unit < 0xDC00

/-- Whether a code unit ends a surrogate pair. -/
def isTrailing (unit : Nat) : Bool := 0xDC00 ≤ unit && unit < 0xE000

/-- The character for the letter of a short escape. -/
def shortEscape? : Char → Option Char
  | '"' => some '"'
  | '\\' => some '\\'
  | '/' => some '/'
  | 'b' => some '\x08'
  | 'f' => some '\x0c'
  | 'n' => some '\n'
  | 'r' => some '\r'
  | 't' => some '\t'
  | _ => none

/-- The characters that a spelling stands for. A surrogate stands for nothing by itself. -/
def unescapeChars : List Char → Option (List Char)
  | '\\' :: 'u' :: a :: b :: c :: d :: '\\' :: 'u' :: a' :: b' :: c' :: d' :: cs => do
    let unit ← hexWord? a b c d
    if isLeading unit then
      let unit' ← hexWord? a' b' c' d'
      guard (isTrailing unit')
      return Char.ofNat (0x10000 + (unit - 0xD800) * 0x400 + (unit' - 0xDC00))
        :: (← unescapeChars cs)
    else
      guard (!isTrailing unit)
      return Char.ofNat unit :: (← unescapeChars ('\\' :: 'u' :: a' :: b' :: c' :: d' :: cs))
  | '\\' :: 'u' :: a :: b :: c :: d :: cs => do
    let unit ← hexWord? a b c d
    guard (!isLeading unit && !isTrailing unit)
    return Char.ofNat unit :: (← unescapeChars cs)
  | '\\' :: c :: cs => do return (← shortEscape? c) :: (← unescapeChars cs)
  | c :: cs => do return c :: (← unescapeChars cs)
  | [] => some []

def unescape? (spelling : String) : Option String :=
  (unescapeChars spelling.toList).map .ofList

/-! ### Values -/

def ofText (s : String) : Json := .text (escape s)

def ofNat (n : Nat) : Json := .number (toString n)

def ofFields (fields : List (String × Json)) : Json :=
  .object (fields.map fun (key, value) => (escape key, value))

def ofOption : Option Json → Json
  | some value => value
  | none => .null

/-- The number of at most 32 bits that a spelling stands for. -/
def word? (spelling : String) : Option UInt32 := do
  let digits := spelling.toList
  guard (!digits.isEmpty && digits.all Char.isDigit)
  guard (digits == ['0'] || digits.head? != some '0')
  let n := digits.foldl (fun n c => n * 10 + (c.toNat - '0'.toNat)) 0
  guard (n < UInt32.size)
  return UInt32.ofNat n

/-- A value that is a number of at most 32 bits. -/
def asWord? : Json → Option UInt32
  | .number spelling => word? spelling
  | _ => none

def asText? : Json → Option String
  | .text spelling => unescape? spelling
  | _ => none

def asBool? : Json → Option Bool
  | .bool b => some b
  | _ => none

def asArray? : Json → Option (List Json)
  | .array items => some items
  | _ => none

def asOption? {α : Type} (read : Json → Option α) : Json → Option (Option α)
  | .null => some none
  | value => (read value).map some

/-- The members of an object with keys, as they are spelled. -/
def asMembers? : Json → Option (List (String × Json))
  | .object members => some members
  | _ => none

/-- The fields of a record. In an object the known keys stand at most once and others are passed
over; an array has the values of all fields in their order. -/
def asRecord? (names : List String) : Json → Option (List (String × Json))
  | .array items => if items.length = names.length then some (names.zip items) else none
  | .object members => do
    let members ← members.mapM fun (key, value) => do return (← unescape? key, value)
    let fields := members.filter (·.1 ∈ names)
    if (fields.map (·.1)).Nodup then return fields else none
  | _ => none

end Json

end LinkSummary
