import LinkSummary.Yaml.Place
import LinkSummary.Yaml.Token

/-!
# Splitting YAML text into tokens

A key in front of a colon is known as one only at the colon. Therefore the places where a key may
begin are remembered, and tokens wait until no possible key begins with them.
-/

namespace LinkSummary.Yaml

/-- A place where a key may have begun. -/
structure PossibleKey where
  number : Nat
  required : Bool
  place : Place
deriving DecidableEq

/-- The state of the splitting of a text. -/
structure Lexer where
  place : Place
  /-- Whether the text ends where the part that can be read ends. -/
  whole : Bool := true
  waiting : List Token := []
  taken : Nat := 0
  keyAllowed : Bool := true
  /-- The column of the innermost block, or -1 outside of blocks. -/
  indent : Int := -1
  /-- The columns of the blocks around it, the nearest first. -/
  outerIndents : List Int := []
  /-- The key that may have begun in each of the open brackets, the innermost first, and last
  outside of brackets. -/
  keys : List (Option PossibleKey) := [none]
deriving DecidableEq

namespace Lexer

def inFlow (lexer : Lexer) : Bool := lexer.keys.length > 1

/-- The key that may have begun in the innermost bracket. -/
def possibleKey? (lexer : Lexer) : Option PossibleKey := lexer.keys.head?.join

/-- Set the key that may have begun in the innermost bracket. -/
def setPossibleKey (lexer : Lexer) (key : Option PossibleKey) : Lexer :=
  { lexer with keys := key :: lexer.keys.tail }

/-- Whether a possible key is a key no more: it has to stand on one line, and within 1024 octets. -/
def isStale (lexer : Lexer) (key : PossibleKey) : Bool :=
  key.place.line < lexer.place.line || key.place.index + 1024 < lexer.place.index

/-- Give up the possible keys that are stale. None of them is required. -/
def dropStaleKeys (lexer : Lexer) : Option Lexer := do
  guard !(lexer.keys.any fun key => key.any fun key => lexer.isStale key && key.required)
  return { lexer with keys := lexer.keys.map (·.filter (!lexer.isStale ·)) }

/-- Give up the possible key of the innermost bracket, which is not required. -/
def dropKey (lexer : Lexer) : Option Lexer := do
  guard !(lexer.possibleKey?.any (·.required))
  return lexer.setPossibleKey none

/-- Remember that a key may begin here. It has to be one at the column of the block. -/
def markKey (lexer : Lexer) : Option Lexer :=
  if lexer.keyAllowed then do
    let key : PossibleKey :=
      { number := lexer.taken + lexer.waiting.length
        required := !lexer.inFlow && lexer.indent == lexer.place.column
        place := lexer.place }
    return (← lexer.dropKey).setPossibleKey key
  else lexer

def push (lexer : Lexer) (token : Token) : Lexer :=
  { lexer with waiting := lexer.waiting ++ [token] }

/-- Put a token before the waiting one with a number. -/
def insertAt (lexer : Lexer) (number : Nat) (token : Token) : Lexer :=
  { lexer with waiting := lexer.waiting.insertIdx (number - lexer.taken) token }

def advance (lexer : Lexer) (count : Nat) : Lexer :=
  { lexer with place := lexer.place.advance count }

def allowKey (lexer : Lexer) (allowed : Bool) : Lexer := { lexer with keyAllowed := allowed }

/-! ### Blocks -/

def beginsBlock (lexer : Lexer) (column : Nat) : Bool := !lexer.inFlow && lexer.indent < column

/-- The state within a block at a column, if one begins there. -/
def enterBlock (lexer : Lexer) (column : Nat) : Lexer :=
  if lexer.beginsBlock column then
    { lexer with indent := column, outerIndents := lexer.indent :: lexer.outerIndents }
  else lexer

def openBlock (lexer : Lexer) (start : Token) : Lexer :=
  let column := lexer.place.column
  if lexer.beginsBlock column then (lexer.enterBlock column).push start else lexer

/-- End the blocks, the innermost at the first column and the others at those that follow, whose
columns are greater than the given one. -/
def closeColumns (column : Int) (waiting : List Token) :
    Int → List Int → List Token × Int × List Int
  | indent, [] => (waiting, indent, [])
  | indent, outer :: others =>
    if column < indent then closeColumns column (waiting ++ [.blockEnd]) outer others
    else (waiting, indent, outer :: others)

/-- End the blocks at columns greater than the given one. -/
def closeBlocks (lexer : Lexer) (column : Int) : Lexer :=
  if lexer.inFlow then lexer
  else
    let (waiting, indent, outerIndents) :=
      closeColumns column lexer.waiting lexer.indent lexer.outerIndents
    { lexer with waiting, indent, outerIndents }

/-! ### Gaps -/

/-- What the characters passed over in front of a token ended with. -/
inductive GapEnd where
  | lineStart
  | comment
  | inLine
deriving DecidableEq

/-- The number of blanks, breaks and characters of comments in front of a token, and whether a key
may begin after them. A break lets a key begin, but not within brackets. Tabs count as blanks only
where no key may begin. A byte order mark may stand at the beginning of a line. -/
def readGap (inFlow : Bool) (gapEnd : GapEnd) (keyAllowed : Bool) (count : Nat) :
    List Char → Nat × Bool
  | [] => (count, keyAllowed)
  | c :: cs =>
    if isBreak c then readGap inFlow .lineStart (keyAllowed || !inFlow) (count + 1) cs
    else if gapEnd = .comment ∨ c = '#' then readGap inFlow .comment keyAllowed (count + 1) cs
    else if c = ' ' ∨ (c = '\t' ∧ (inFlow ∨ !keyAllowed))
        ∨ (c = '\ufeff' ∧ gapEnd = .lineStart) then
      readGap inFlow .inLine keyAllowed (count + 1) cs
    else (count, keyAllowed)

/-- The state after blanks, comments and breaks. -/
def afterGap (lexer : Lexer) : Lexer :=
  let gapEnd := if lexer.place.column = 0 then GapEnd.lineStart else .inLine
  let (count, keyAllowed) := readGap lexer.inFlow gapEnd lexer.keyAllowed 0 lexer.place.rest
  (lexer.advance count).allowKey keyAllowed

/-! ### Single tokens -/

/-- The end of the text, which ends the last line. -/
def lexEnd (lexer : Lexer) : Option Lexer := do
  let lexer := { lexer with place := lexer.place.endLine }
  let lexer ← (lexer.closeBlocks (-1)).dropKey
  return (lexer.allowKey false).push .streamEnd

/-- A token that stands at the beginning of a line and ends all blocks. -/
def lexOutside (lexer : Lexer) (token : Token) (count : Nat) : Option Lexer := do
  let lexer ← (lexer.closeBlocks (-1)).dropKey
  return ((lexer.allowKey false).push token).advance count

def lexFlowStart (lexer : Lexer) (token : Token) : Option Lexer := do
  let lexer ← lexer.markKey
  let lexer := { lexer with keys := none :: lexer.keys }
  return ((lexer.allowKey true).push token).advance 1

def lexFlowEnd (lexer : Lexer) (token : Token) : Option Lexer := do
  let lexer ← lexer.dropKey
  let lexer := if lexer.inFlow then { lexer with keys := lexer.keys.tail } else lexer
  return ((lexer.allowKey false).push token).advance 1

def lexFlowEntry (lexer : Lexer) : Option Lexer := do
  let lexer ← lexer.dropKey
  return ((lexer.allowKey true).push .flowEntry).advance 1

/-- Begin a block where a mark stands that needs one. -/
def openBlockAtMark (lexer : Lexer) (start : Token) : Option Lexer :=
  if lexer.inFlow then lexer
  else if lexer.keyAllowed then lexer.openBlock start
  else none

def lexBlockEntry (lexer : Lexer) : Option Lexer := do
  let lexer ← (← lexer.openBlockAtMark .blockSequenceStart).dropKey
  return ((lexer.allowKey true).push .blockEntry).advance 1

def lexKey (lexer : Lexer) : Option Lexer := do
  let lexer ← (← lexer.openBlockAtMark .blockMappingStart).dropKey
  return ((lexer.allowKey !lexer.inFlow).push .key).advance 1

/-- The state in which a possible key is one. A block may begin with it. -/
def acceptKey (lexer : Lexer) (key : PossibleKey) : Lexer :=
  let column := key.place.column
  let withKey := lexer.insertAt key.number .key
  let withBlock :=
    if lexer.beginsBlock column then withKey.insertAt key.number .blockMappingStart else withKey
  ((withBlock.enterBlock column).setPossibleKey none).allowKey false

def lexValue (lexer : Lexer) : Option Lexer := do
  let lexer ←
    match lexer.possibleKey? with
    | some key => some (lexer.acceptKey key)
    | none => (lexer.openBlockAtMark .blockMappingStart).map fun lexer =>
      lexer.allowKey !lexer.inFlow
  return (lexer.push .value).advance 1

/-- A token with which a key may begin, after a mark of the given width. -/
def lexMarked (lexer : Lexer) (mark : Nat) (read : List Char → Option (Token × Nat)) :
    Option Lexer := do
  let lexer ← lexer.markKey
  let (token, count) ← read (lexer.place.rest.drop mark)
  return ((lexer.allowKey false).push token).advance (mark + count)

def lexBlock (lexer : Lexer) (folded : Bool) : Option Lexer := do
  let lexer ← lexer.dropKey
  let place := lexer.place
  let (text, count) ← readBlock folded lexer.indent place.rest.tail
  let style := if folded then .marked else .literal
  return ((lexer.allowKey true).push (.scalar place.position style text)).advance (1 + count)

def lexPlain (lexer : Lexer) : Option Lexer := do
  let lexer ← lexer.markKey
  let place := lexer.place
  let scalar ← readPlain lexer.inFlow (lexer.indent + 1) {} 0 place.column false place.rest
  let token := .scalar place.position .plain scalar.text
  return ((lexer.allowKey scalar.endsLine).push token).advance scalar.count

/-! ### The next token -/

/-- The marks that a plain scalar does not begin with. -/
def isIndicator (c : Char) : Bool :=
  c ∈ ['-', '?', ':', ',', '[', ']', '\x7b', '\x7d', '#', '&', '*', '!', '|', '>', '\'', '"', '%',
    '@', '\x60']

/-- Whether a plain scalar begins with a character, given the characters after it. -/
def beginsPlain (inFlow : Bool) (c : Char) (cs : List Char) : Bool :=
  !(isIndicator c || isBlank c || isBreak c)
    || (c == '-' && !cs.head?.any isBlank)
    || (!inFlow && (c == '?' || c == ':') && !atGap cs)

/-- The state after the token that begins with a character, given the characters after it. -/
def lexFrom (lexer : Lexer) (c : Char) (cs : List Char) : Option Lexer :=
  let atLineStart := lexer.place.column == 0
  let position := lexer.place.position
  let marked := Token.scalar position .marked
  let inFlow := lexer.inFlow
  if atLineStart && c == '%' then do
    let (directive, count) ← readDirective cs
    lexer.lexOutside directive (1 + count)
  else if atLineStart && atDocumentMark (c :: cs) then
    lexer.lexOutside (if c = '-' then .documentStart else .documentEnd) 3
  else if c = '[' then lexer.lexFlowStart .flowSequenceStart
  else if c = '\x7b' then lexer.lexFlowStart .flowMappingStart
  else if c = ']' then lexer.lexFlowEnd .flowSequenceEnd
  else if c = '\x7d' then lexer.lexFlowEnd .flowMappingEnd
  else if c = ',' then lexer.lexFlowEntry
  else if c = '-' ∧ atGap cs then lexer.lexBlockEntry
  else if c = '?' ∧ (inFlow ∨ atGap cs) then lexer.lexKey
  else if c = ':' ∧ (inFlow ∨ atGap cs) then lexer.lexValue
  else if c = '*' then lexer.lexMarked 1 fun cs => (readName cs).map (Prod.map .reference id)
  else if c = '&' then lexer.lexMarked 1 fun cs => (readName cs).map (Prod.map (.anchor position) id)
  else if c = '!' then lexer.lexMarked 0 fun cs => (readTag inFlow cs).map (Prod.map (.tag position) id)
  else if c = '|' ∧ !inFlow then lexer.lexBlock false
  else if c = '>' ∧ !inFlow then lexer.lexBlock true
  else if c = '\'' then
    lexer.lexMarked 1 fun cs => (readSingle {} 0 cs).map (Prod.map marked id)
  else if c = '"' then
    lexer.lexMarked 1 fun cs => (readDouble {} 0 0 cs).map (Prod.map marked id)
  else if beginsPlain inFlow c cs then lexer.lexPlain
  else none

/-- Whether at least a number of characters can be read, or all that there are. -/
def canSee (lexer : Lexer) (count : Nat) : Bool :=
  lexer.whole || count == 0 || !(lexer.place.rest.drop (count - 1)).isEmpty

/-- The state after the next token. Four characters are looked at to tell the token, and one to tell
its end. -/
def step (lexer : Lexer) : Option Lexer := do
  let lexer ← lexer.afterGap.dropStaleKeys
  guard (lexer.canSee 4)
  let lexer := lexer.closeBlocks lexer.place.column
  let after ←
    match lexer.place.rest with
    | [] => lexer.lexEnd
    | c :: cs => lexer.lexFrom c cs
  guard (after.canSee 1)
  return after

/-! ### All tokens -/

/-- Whether a key may begin with the first of the tokens that wait. -/
def maybeKey (lexer : Lexer) : Bool :=
  lexer.keys.any fun key => key.any (·.number == lexer.taken)

/-- The tokens of the text up to its end, or up to a place where it cannot be split. -/
def run : Nat → Lexer → List Token
  | 0, _ => []
  | fuel + 1, lexer =>
    match lexer.waiting with
    | [] =>
      match lexer.step with
      | some lexer => run fuel lexer
      | none => []
    | token :: waiting =>
      match lexer.dropStaleKeys with
      | none => []
      | some lexer =>
        if lexer.maybeKey then
          match lexer.step with
          | some lexer => run fuel lexer
          | none => []
        else if token = .streamEnd then [.streamEnd]
        else token :: run fuel { lexer with waiting, taken := lexer.taken + 1 }

end Lexer

/-- The tokens of a text up to its end, or up to a place where it cannot be read or split. A step
takes a character or hands out a token, and no character gives rise to more than four tokens: the
fuel is enough. -/
def tokensOf (s : String) : List Token :=
  let (readable, whole) := readablePart s.toList
  let cs := unifyBreaks readable
  Lexer.run (8 * (cs.length + 1)) { place := { rest := cs }, whole }

end LinkSummary.Yaml
