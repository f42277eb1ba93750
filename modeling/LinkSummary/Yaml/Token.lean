import LinkSummary.Yaml.Place
import LinkSummary.Yaml.Scalar
import LinkSummary.Yaml.Tag

/-!
# Tokens of YAML

A token is a mark, a scalar, or the change of indentation that begins or ends a block. Scalars and
what stands in front of them tell where they begin.
-/

namespace LinkSummary.Yaml

/-- A token. -/
inductive Token where
  | streamEnd
  | version (major minor : Nat)
  | handle (handle pre : Octets)
  | documentStart
  | documentEnd
  /-- More indentation, in front of the first dash of a list. -/
  | blockSequenceStart
  /-- More indentation, in front of the first key of a mapping. -/
  | blockMappingStart
  | blockEnd
  | flowSequenceStart
  | flowSequenceEnd
  | flowMappingStart
  | flowMappingEnd
  | blockEntry
  | flowEntry
  | key
  | value
  | reference (name : String)
  | anchor (position : Position) (name : String)
  | tag (position : Position) (tag : WrittenTag)
  | scalar (position : Position) (style : ScalarStyle) (text : String)
deriving DecidableEq

/-! ### Words -/

/-- The name of an anchor. A gap or one of a few marks follows it. -/
def readName (cs : List Char) : Option Taken := do
  let name := cs.takeWhile isWordChar
  guard !name.isEmpty
  let rest := cs.drop name.length
  guard (atGap rest || rest.head?.any (· ∈ ['?', ':', ',', ']', '\x7d', '%', '@', '\x60']))
  return (.ofList name, name.length)

/-! ### Directives -/

/-- A number in a version, of one to nine digits, and what follows it. -/
def readVersionNumber (cs : List Char) : Option (Nat × List Char) := do
  let digits := cs.takeWhile Char.isDigit
  guard (!digits.isEmpty && digits.length ≤ 9)
  return (digits.foldl (fun n c => n * 10 + (c.toNat - '0'.toNat)) 0, cs.drop digits.length)

def readVersion (cs : List Char) : Option (Token × List Char) := do
  let (major, cs) ← readVersionNumber (cs.dropWhile isBlank)
  guard (cs.head? = some '.')
  let (minor, cs) ← readVersionNumber cs.tail
  return (.version major minor, cs)

/-- A handle and what it stands for, and what follows them. -/
def readHandleMeaning (cs : List Char) : Option (Token × List Char) := do
  let cs := cs.dropWhile isBlank
  let handle ← readHandle cs
  guard (isClosedHandle handle || handle == ['!'])
  let cs := cs.drop handle.length
  guard (cs.head?.any isBlank)
  let cs := cs.dropWhile isBlank
  let (pre, count) ← readSomeAddress true cs
  let cs := cs.drop count
  guard (atGap cs)
  return (.handle (handleOctets handle) pre, cs)

/-- A directive, read from after its mark, and the number of its characters with the break that ends
its line. -/
def readDirective (cs : List Char) : Option (Token × Nat) := do
  let name := cs.takeWhile isWordChar
  let rest := cs.drop name.length
  guard (atGap rest)
  let (directive, rest) ←
    if name = ['Y', 'A', 'M', 'L'] then readVersion rest
    else if name = ['T', 'A', 'G'] then readHandleMeaning rest
    else none
  let rest := rest.dropWhile isBlank
  let rest := if rest.head? = some '#' then rest.dropWhile (!isBreak ·) else rest
  guard (rest.head?.all isBreak)
  return (directive, cs.length - rest.tail.length)

end LinkSummary.Yaml
