import LinkSummary.Yaml.Char
import LinkSummary.Yaml.Folding

/-!
# Reading YAML scalars

Each reader begins after the mark that opens the scalar. It tells the text, and how many characters
it took.
-/

namespace LinkSummary.Yaml

/-- How a scalar is written. -/
inductive ScalarStyle where
  | plain
  | marked
  | literal
deriving DecidableEq, Inhabited

/-- A text read, and the number of characters that it took. -/
abbrev Taken := String × Nat

/-! ### In single quotes -/

/-- The rest of a text in single quotes; a quote in it is written twice. No line begins with the
mark of a document. -/
def readSingle (f : Folding) (count : Nat) : List Char → Option Taken
  | [] => none
  | '\'' :: '\'' :: cs => readSingle (f.push '\'') (count + 2) cs
  | '\'' :: _ => some (f.settle.result, count + 1)
  | c :: cs =>
    if isBreak c then
      if atDocumentMark cs then none else readSingle (f.lineBreak c) (count + 1) cs
    else if isBlank c then readSingle (f.blank c) (count + 1) cs
    else readSingle (f.push c) (count + 1) cs

/-! ### In double quotes -/

def hexValue? (c : Char) : Option Nat :=
  if '0' ≤ c ∧ c ≤ '9' then some (c.toNat - '0'.toNat)
  else if 'a' ≤ c ∧ c ≤ 'f' then some (c.toNat - 'a'.toNat + 10)
  else if 'A' ≤ c ∧ c ≤ 'F' then some (c.toNat - 'A'.toNat + 10)
  else none

/-- The character with a number of the given width in base sixteen. Surrogates are none. -/
def hexEscape? (width : Nat) (cs : List Char) : Option Char := do
  let digits ← (cs.take width).mapM hexValue?
  guard (digits.length = width)
  let n := digits.foldl (fun n d => n * 16 + d) 0
  if n.isValidChar then return Char.ofNat n else none

/-- The characters that stand for another after a backslash. -/
def letterEscapes : List (Char × Char) :=
  [('0', '\x00'), ('a', '\x07'), ('b', '\x08'), ('t', '\t'), ('\t', '\t'), ('n', '\n'),
    ('v', '\x0b'), ('f', '\x0c'), ('r', '\r'), ('e', '\x1b'), (' ', ' '), ('"', '"'), ('/', '/'),
    ('\\', '\\'), ('N', '\u0085'), ('_', '\u00a0'), ('L', '\u2028'), ('P', '\u2029')]

/-- The character that an escape stands for, read from after the backslash, and the number of
characters after it. -/
def escape? : List Char → Option (Char × Nat)
  | [] => none
  | 'x' :: cs => (hexEscape? 2 cs).map (·, 3)
  | 'u' :: cs => (hexEscape? 4 cs).map (·, 5)
  | 'U' :: cs => (hexEscape? 8 cs).map (·, 9)
  | c :: _ => (letterEscapes.lookup c).map (·, 1)

/-- The rest of a text in double quotes, after some characters to be passed over. An escaped break
joins two lines. -/
def readDouble (f : Folding) (count passed : Nat) : List Char → Option Taken
  | [] => none
  | c :: cs =>
    match passed with
    | passed + 1 => readDouble f (count + 1) passed cs
    | 0 =>
      if c = '"' then some (f.settle.result, count + 1)
      else if c = '\\' then
        if cs.head?.any isBreak then
          if atDocumentMark cs.tail then none else readDouble f.joinLines (count + 1) 1 cs
        else
          match escape? cs with
          | none => none
          | some (e, passed) => readDouble (f.push e) (count + 1) passed cs
      else if isBreak c then
        if atDocumentMark cs then none else readDouble (f.lineBreak c) (count + 1) 0 cs
      else if isBlank c then readDouble (f.blank c) (count + 1) 0 cs
      else readDouble (f.push c) (count + 1) 0 cs

/-! ### Plain -/

/-- A plain scalar. -/
structure PlainScalar where
  text : String
  /-- The number of characters, with the blanks and breaks after the text. -/
  count : Nat
  endsLine : Bool
deriving DecidableEq

/-- The characters that end a plain scalar within brackets. -/
def isFlowIndicator (c : Char) : Bool := c ∈ [',', '[', ']', '\x7b', '\x7d']

/-- A plain scalar, within brackets or not, whose continuation lines begin at the given column or
later. It ends at a colon before a gap, at a comment, at the mark of a document, at a line with less
indentation, and within brackets at an indicator. -/
def readPlain (inFlow : Bool) (indent : Int) (f : Folding) (count column : Nat) (afterGap : Bool) :
    List Char → Option PlainScalar
  | [] => some ⟨f.result, count, f.afterBreak⟩
  | c :: cs =>
    if isBreak c then readPlain inFlow indent (f.lineBreak c) (count + 1) 0 true cs
    else if isBlank c then
      if f.afterBreak && column < indent && c == '\t' then none
      else readPlain inFlow indent (f.blank c) (count + 1) (column + 1) true cs
    else if afterGap && ((!inFlow && column < indent) || c == '#'
        || (column == 0 && atDocumentMark (c :: cs))) then
      some ⟨f.result, count, f.afterBreak⟩
    else if inFlow && c == ':' && cs.head?.any fun d => isFlowIndicator d || d == '?' then none
    else if (c == ':' && atGap cs) || (inFlow && isFlowIndicator c) then
      some ⟨f.result, count, f.afterBreak⟩
    else readPlain inFlow indent (f.push c) (count + 1) (column + 1) false cs

/-! ### Blocks -/

/-- What becomes of the breaks at the end of a block. -/
inductive Chomping where
  | strip
  | clip
  | keep
deriving DecidableEq, Inhabited

/-- The first line of a block. -/
structure BlockHeader where
  chomping : Chomping := .clip
  depth : Option Nat := none
  count : Nat := 0
deriving DecidableEq

def chomping? : Char → Option Chomping
  | '-' => some .strip
  | '+' => some .keep
  | _ => none

def depth? (c : Char) : Option Nat :=
  if c.isDigit then some (c.toNat - '0'.toNat) else none

/-- The sign and the depth of a block, in any order. A depth of zero is none. -/
def readIndicators : List Char → Option BlockHeader
  | a :: b :: _ =>
    let header : BlockHeader :=
      match chomping? a, depth? b, depth? a, chomping? b with
      | some chomping, some depth, _, _ => ⟨chomping, some depth, 2⟩
      | some chomping, none, _, _ => ⟨chomping, none, 1⟩
      | none, _, some depth, some chomping => ⟨chomping, some depth, 2⟩
      | none, _, some depth, none => ⟨.clip, some depth, 1⟩
      | none, _, none, _ => {}
    if header.depth = some 0 then none else some header
  | [a] =>
    match chomping? a, depth? a with
    | some chomping, _ => some ⟨chomping, none, 1⟩
    | none, some depth => if depth = 0 then none else some ⟨.clip, some depth, 1⟩
    | none, none => some {}
  | [] => some {}

/-- The first line of a block, with its break: indicators, blanks, and perhaps a comment. -/
def readBlockHeader (cs : List Char) : Option BlockHeader := do
  let header ← readIndicators cs
  let afterIndicators := cs.drop header.count
  let afterBlanks := afterIndicators.dropWhile isBlank
  let afterComment :=
    if afterBlanks.head? = some '#' then afterBlanks.dropWhile (!isBreak ·) else afterBlanks
  guard (afterComment.head?.all isBreak)
  let rest := afterComment.tail
  return { header with count := cs.length - rest.length }

/-- A block that is being read. The lists are in reverse order. -/
structure Block where
  text : List Char := []
  lineEnd : List Char := []
  emptyLines : List Char := []
  blankLine : Bool := false
  inLine : Bool := false
  /-- The column of the place, unless it is within a line's text. -/
  column : Nat := 0
  /-- The greatest column that a line's text or end was found at. -/
  widest : Nat := 0
  count : Nat := 0
deriving DecidableEq

namespace Block

/-- The empty lines before the text, and the margin of its first line. The margin ends at the given
depth; without one it is as wide as it can be. A tab in the margin is none of it. -/
def readMargin (depth : Option Nat) (b : Block) : List Char → Option Block
  | [] => some { b with widest := max b.widest b.column }
  | c :: cs =>
    let inMargin := depth.all fun depth => b.column < depth
    if c = ' ' ∧ inMargin then
      readMargin depth { b with column := b.column + 1, count := b.count + 1 } cs
    else if c = '\t' ∧ inMargin then none
    else
      let b := { b with widest := max b.widest b.column }
      if isBreak c then
        readMargin depth
          { b with emptyLines := c :: b.emptyLines, column := 0, count := b.count + 1 } cs
      else some b

/-- Begin a line with its first character. In a folded block a line feed between two lines that do
not begin with a blank stands for a blank, or for nothing before empty lines. -/
def beginLine (folded : Bool) (b : Block) (c : Char) : Block :=
  let lineEnd :=
    if folded && b.lineEnd == ['\n'] && !b.blankLine && !isBlank c then
      if b.emptyLines.isEmpty then [' '] else []
    else b.lineEnd
  { b with
    text := c :: b.emptyLines ++ lineEnd ++ b.text
    lineEnd := [], emptyLines := [], blankLine := isBlank c, inLine := true, count := b.count + 1 }

/-- The lines at a depth, up to the first with less indentation. -/
def readLines (folded : Bool) (depth : Nat) (b : Block) : List Char → Option Block
  | [] => some b
  | c :: cs =>
    if b.inLine then
      if isBreak c then
        readLines folded depth
          { b with lineEnd := [c], inLine := false, column := 0, count := b.count + 1 } cs
      else readLines folded depth { b with text := c :: b.text, count := b.count + 1 } cs
    else if c = ' ' ∧ b.column < depth then
      readLines folded depth { b with column := b.column + 1, count := b.count + 1 } cs
    else if c = '\t' ∧ b.column < depth then none
    else if isBreak c then
      readLines folded depth
        { b with emptyLines := c :: b.emptyLines, column := 0, count := b.count + 1 } cs
    else if b.column = depth then readLines folded depth (b.beginLine folded c) cs
    else some b

def result (chomping : Chomping) (b : Block) : String :=
  .ofList <| List.reverse <|
    match chomping with
    | .strip => b.text
    | .clip => b.lineEnd ++ b.text
    | .keep => b.emptyLines ++ b.lineEnd ++ b.text

end Block

/-- The rest of a block scalar after its mark, in a collection with the given indentation. -/
def readBlock (folded : Bool) (indent : Int) (cs : List Char) : Option Taken := do
  let header ← readBlockHeader cs
  let told := header.depth.map fun depth => max indent 0 + depth |>.toNat
  let lines := cs.drop header.count
  let margin ← Block.readMargin told { count := header.count } lines
  let depth := told.getD (max margin.widest (max (indent + 1) 1).toNat)
  let block ← margin.readLines folded depth (cs.drop margin.count)
  return (block.result header.chomping, block.count)

end LinkSummary.Yaml
