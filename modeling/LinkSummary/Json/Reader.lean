import LinkSummary.Json.Value

/-!
# Reading JSON

The text of a value, with blanks around it and between its parts. The reader splits a text from the
front: each part is read from a list of characters, and the rest is left for the next.
-/

namespace LinkSummary.Json

def isBlank (c : Char) : Bool := c == ' ' || c == '\n' || c == '\t' || c == '\r'

def skipBlanks (cs : List Char) : List Char := cs.dropWhile isBlank

/-- The digits at the front of a text, and the rest. -/
def spanDigits (cs : List Char) : List Char × List Char := cs.span Char.isDigit

/-- At least one digit at the front of a text, and the rest. -/
def someDigits? (cs : List Char) : Option (List Char × List Char) :=
  match spanDigits cs with
  | ([], _) => none
  | (digits, rest) => some (digits, rest)

/-- The digits before the point of a number: a lone zero, or digits that begin with another. -/
def wholePart? : List Char → Option (List Char × List Char)
  | '0' :: cs => if cs.head?.any Char.isDigit then none else some (['0'], cs)
  | cs => someDigits? cs

/-- The point of a number with its digits, if there is one. -/
def fraction? : List Char → Option (List Char × List Char)
  | '.' :: cs => do
    let (digits, rest) ← someDigits? cs
    return ('.' :: digits, rest)
  | cs => some ([], cs)

/-- The sign at the front of a text, if there is one. -/
def spanSign : List Char → List Char × List Char
  | '+' :: cs => (['+'], cs)
  | '-' :: cs => (['-'], cs)
  | cs => ([], cs)

/-- The exponent of a number, if there is one. -/
def exponent? : List Char → Option (List Char × List Char)
  | c :: cs =>
    if c = 'e' ∨ c = 'E' then do
      let (sign, cs) := spanSign cs
      let (digits, rest) ← someDigits? cs
      return (c :: sign ++ digits, rest)
    else some ([], c :: cs)
  | [] => some ([], [])

/-- The spelling of a number, and the rest of the text. -/
def numberSpelling? (cs : List Char) : Option (String × List Char) := do
  let (minus, cs) := match cs with
    | '-' :: cs => (['-'], cs)
    | cs => ([], cs)
  let (whole, cs) ← wholePart? cs
  let (fraction, cs) ← fraction? cs
  let (exponent, rest) ← exponent? cs
  return (.ofList (minus ++ whole ++ fraction ++ exponent), rest)

/-- The spelling of a text up to its closing quote, and the rest. -/
def textSpelling? : List Char → Option (List Char × List Char)
  | '"' :: rest => some ([], rest)
  | '\\' :: 'u' :: a :: b :: c :: d :: cs => do
    guard (hexWord? a b c d).isSome
    let (spelling, rest) ← textSpelling? cs
    return ('\\' :: 'u' :: a :: b :: c :: d :: spelling, rest)
  | '\\' :: c :: cs => do
    guard (shortEscape? c).isSome
    let (spelling, rest) ← textSpelling? cs
    return ('\\' :: c :: spelling, rest)
  | c :: cs => do
    guard (c ≠ '\\' ∧ 0x20 ≤ c.toNat)
    let (spelling, rest) ← textSpelling? cs
    return (c :: spelling, rest)
  | [] => none

/-- The text after a word that it begins with. -/
def afterWord? : List Char → List Char → Option (List Char)
  | [], cs => some cs
  | w :: ws, c :: cs => if w = c then afterWord? ws cs else none
  | _ :: _, [] => none

mutual

/-- The value at the front of a text, and the rest; `fuel` bounds the nesting and the number of
parts. -/
def readValue : Nat → List Char → Option (Json × List Char)
  | 0, _ => none
  | fuel + 1, cs =>
    match skipBlanks cs with
    | '[' :: cs =>
      match skipBlanks cs with
      | ']' :: rest => some (.array [], rest)
      | cs => do
        let (items, rest) ← readItems fuel cs
        return (.array items, rest)
    | '\x7b' :: cs =>
      match skipBlanks cs with
      | '\x7d' :: rest => some (.object [], rest)
      | cs => do
        let (members, rest) ← readMembers fuel cs
        return (.object members, rest)
    | '"' :: cs => do
      let (spelling, rest) ← textSpelling? cs
      return (.text (.ofList spelling), rest)
    | 'n' :: cs => do return (.null, ← afterWord? ['u', 'l', 'l'] cs)
    | 't' :: cs => do return (.bool true, ← afterWord? ['r', 'u', 'e'] cs)
    | 'f' :: cs => do return (.bool false, ← afterWord? ['a', 'l', 's', 'e'] cs)
    | cs => do
      let (spelling, rest) ← numberSpelling? cs
      return (.number spelling, rest)

def readItems : Nat → List Char → Option (List Json × List Char)
  | 0, _ => none
  | fuel + 1, cs => do
    let (item, cs) ← readValue fuel cs
    match skipBlanks cs with
    | ',' :: cs =>
      let (items, rest) ← readItems fuel cs
      return (item :: items, rest)
    | ']' :: rest => return ([item], rest)
    | _ => none

def readMembers : Nat → List Char → Option (List (String × Json) × List Char)
  | 0, _ => none
  | fuel + 1, cs =>
    match skipBlanks cs with
    | '"' :: cs => do
      let (key, cs) ← textSpelling? cs
      match skipBlanks cs with
      | ':' :: cs =>
        let (value, cs) ← readValue fuel cs
        match skipBlanks cs with
        | ',' :: cs =>
          let (members, rest) ← readMembers fuel cs
          return ((.ofList key, value) :: members, rest)
        | '\x7d' :: rest => return ([(.ofList key, value)], rest)
        | _ => none
      | _ => none
    | _ => none

end

/-- The value of a text, with nothing but blanks after it. Every part takes a character, so the
length of the text is fuel enough. -/
def parse? (s : String) : Option Json := do
  let cs := s.toList
  let (value, rest) ← readValue (2 * cs.length + 2) cs
  if (skipBlanks rest).isEmpty then return value else none

end LinkSummary.Json
