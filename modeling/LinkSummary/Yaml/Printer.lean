import LinkSummary.Yaml.Char
import LinkSummary.Yaml.Resolution

/-!
# Writing YAML scalars

A text is written as a literal block if it has line feeds, plain if it cannot be misread, and else
in quotes. Lines after the first are indented, so a scalar is written for the column of its
continuation lines.
-/

namespace LinkSummary.Yaml

/-! ### What a style can hold -/

/-- Whether some character of a text and the one after it satisfy a condition. -/
def anyAdjacent (p : Char → Char → Bool) : List Char → Bool
  | a :: b :: cs => p a b || anyAdjacent p (b :: cs)
  | _ => false

def hasSpaceBreak (cs : List Char) : Bool := anyAdjacent (fun a b => a == ' ' && isBreak b) cs

def hasBreakSpace (cs : List Char) : Bool := anyAdjacent (fun a b => isBreak a && b == ' ') cs

def allowsLiteral (cs : List Char) : Bool :=
  cs.getLast? != some ' ' && !hasSpaceBreak cs && cs.all isPrintable

/-- Whether a text can stand in single quotes. -/
def allowsSingle (cs : List Char) : Bool :=
  !hasSpaceBreak cs && !hasBreakSpace cs && cs.all isPrintable

/-- The characters that no plain scalar begins with. -/
def isLeadingIndicator (c : Char) : Bool :=
  c ∈ ['#', ',', '[', ']', '\x7b', '\x7d', '&', '*', '!', '|', '>', '\'', '"', '%', '@', '\x60']

/-- Whether the beginning of a text would be read as something else than a plain scalar. -/
def beginsSpecially : List Char → Bool
  | '-' :: '-' :: '-' :: _ => true
  | '.' :: '.' :: '.' :: _ => true
  | c :: cs => isLeadingIndicator c || (c ∈ ['?', ':', '-'] && atGap cs)
  | [] => true

/-- Whether a colon before a gap, or a number sign after one, would end a plain scalar. -/
def hasIndicator : List Char → Bool
  | ':' :: cs => atGap cs || hasIndicator cs
  | a :: '#' :: cs => isBlank a || isBreak a || hasIndicator ('#' :: cs)
  | _ :: cs => hasIndicator cs
  | [] => false

/-- Whether a text can be written without quotes. -/
def allowsPlain (cs : List Char) : Bool :=
  !beginsSpecially cs && !hasIndicator cs && cs.head? != some ' ' && cs.getLast? != some ' '
    && cs.all fun c => isPrintable c && !isBreak c

/-! ### Quotes -/

/-- The blanks in front of a continuation line. -/
def margin (column : Nat) : List Char := List.replicate column ' '

/-- A text between single quotes, from a place on that follows a break or not. What comes after
breaks begins a continuation line. -/
def singleFrom (column : Nat) (afterBreak : Bool) : List Char → List Char
  | [] => if afterBreak then margin column else []
  | c :: cs =>
    if isBreak c then c :: singleFrom column true cs
    else
      (if afterBreak then margin column else []) ++
        (if c = '\'' then ['\'', '\''] else [c]) ++ singleFrom column false cs

def singleQuoted (column : Nat) (cs : List Char) : List Char :=
  '\'' :: singleFrom column false cs ++ ['\'']

/-- Digits of a number in base sixteen, in upper case. -/
def hexDigits (width n : Nat) : List Char :=
  (List.range width).reverse.map fun place =>
    "0123456789ABCDEF".toList.getD (n / Nat.pow 16 place % 16) '0'

/-- The letter that stands for a character after a backslash. -/
def escapeLetter? (c : Char) : Option Char :=
  [('\x00', '0'), ('\x07', 'a'), ('\x08', 'b'), ('\t', 't'), ('\n', 'n'), ('\x0b', 'v'),
    ('\x0c', 'f'), ('\r', 'r'), ('\x1b', 'e'), ('"', '"'), ('\\', '\\'), ('\u0085', 'N'),
    ('\u00a0', '_'), ('\u2028', 'L'), ('\u2029', 'P')].lookup c

def escaped (c : Char) : List Char :=
  match escapeLetter? c with
  | some letter => ['\\', letter]
  | none =>
    if c.toNat < 0x100 then '\\' :: 'x' :: hexDigits 2 c.toNat
    else if c.toNat < 0x10000 then '\\' :: 'u' :: hexDigits 4 c.toNat
    else '\\' :: 'U' :: hexDigits 8 c.toNat

def doubleQuoted (cs : List Char) : List Char :=
  '"' :: (cs.flatMap fun c =>
    if isPrintable c && !isBreak c && c != '"' && c != '\\' then [c] else escaped c) ++ ['"']

/-! ### Literal blocks -/

/-- The number that tells the depth of a block whose first line begins with a blank or is empty. -/
def depthHint (cs : List Char) : List Char :=
  if cs.head?.any fun c => c == ' ' || isBreak c then ['2'] else []

/-- The sign that tells what becomes of the breaks at the end of a block: `-` if there is none,
nothing for one, `+` for more. A block that is a single break keeps it. -/
def chompHint (cs : List Char) : List Char :=
  match cs.reverse with
  | [] => ['-']
  | c :: before =>
    if !isBreak c then ['-']
    else
      match before with
      | [] => ['+']
      | c' :: _ => if isBreak c' then ['+'] else []

/-- The lines of a block, each that is not empty after its margin. -/
def blockLines (column : Nat) (atStart : Bool) : List Char → List Char
  | [] => if atStart then [] else ['\n']
  | c :: cs =>
    if isBreak c then c :: blockLines column true cs
    else (if atStart then margin column else []) ++ c :: blockLines column false cs

/-- A literal block, without the break that ends its last line. -/
def literalBlock (column : Nat) (cs : List Char) : List Char :=
  '|' :: depthHint cs ++ chompHint cs ++ '\n' :: (blockLines column true cs)

/-! ### Scalars -/

def quoted (column : Nat) (cs : List Char) : List Char :=
  if allowsSingle cs then singleQuoted column cs else doubleQuoted cs

/-- A text as a scalar to the end of its last line; continuation lines begin at the given
column. -/
def scalarLine (column : Nat) (s : String) : List Char :=
  let cs := s.toList
  if '\n' ∈ cs then
    if allowsLiteral cs then literalBlock column cs else doubleQuoted cs ++ ['\n']
  else if isOwnText s && allowsPlain cs then cs ++ ['\n']
  else quoted column cs ++ ['\n']

end LinkSummary.Yaml
