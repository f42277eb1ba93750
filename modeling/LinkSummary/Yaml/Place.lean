import LinkSummary.Yaml.Char

/-!
# Places in a text

A place has the characters from it on and its coordinates. Indentation is told by the column of a
place, and a key has to stand on one line. Before a text is read its characters are checked piece by
piece, and its line breaks are unified.
-/

namespace LinkSummary.Yaml

/-- The number of octets in a piece of a text that is checked at once. -/
def pieceSize : Nat := 16384

/-- The pieces of a text up to the first with a character that is not allowed, in reverse order, and
whether they are the whole text. Given are the pieces before, the piece that is being read, and its
number of octets. -/
def readPieces (before piece : List Char) (size : Nat) : List Char → List Char × Bool
  | [] => (piece ++ before, true)
  | c :: cs =>
    if size + c.utf8Size ≤ pieceSize then
      if isAllowed c then readPieces before (c :: piece) (size + c.utf8Size) cs else (before, false)
    else if isAllowed c then readPieces (piece ++ before) [c] c.utf8Size cs
    else (piece ++ before, false)

/-- The part of a text that can be read, and whether it is the whole text. -/
def readablePart (cs : List Char) : List Char × Bool :=
  let (pieces, whole) := readPieces [] [] 0 cs
  (pieces.reverse, whole)

/-- A text in which every line break but the line and the paragraph separator is a line feed. -/
def unifyBreaks : List Char → List Char
  | '\r' :: '\n' :: cs => '\n' :: unifyBreaks cs
  | '\r' :: cs => '\n' :: unifyBreaks cs
  | '\u0085' :: cs => '\n' :: unifyBreaks cs
  | c :: cs => c :: unifyBreaks cs
  | [] => []

/-- A position in a text, as messages tell it. -/
structure Position where
  line : Nat
  column : Nat
deriving DecidableEq

/-- A place in a text. -/
structure Place where
  rest : List Char
  index : Nat := 0
  line : Nat := 0
  column : Nat := 0
deriving DecidableEq

namespace Place

def position (p : Place) : Position := ⟨p.line, p.column⟩

def next (p : Place) : Place :=
  match p.rest with
  | [] => p
  | c :: cs =>
    let index := p.index + c.utf8Size
    if isBreak c then ⟨cs, index, p.line + 1, 0⟩
    else ⟨cs, index, p.line, p.column + 1⟩

def advance (p : Place) : Nat → Place
  | 0 => p
  | count + 1 => p.next.advance count

/-- The place at the beginning of the next line, as if a break stood here, unless a line begins
here. -/
def endLine (p : Place) : Place :=
  if p.column = 0 then p else { p with line := p.line + 1, column := 0 }

@[simp] theorem rest_next (p : Place) : p.next.rest = p.rest.tail := by
  unfold next
  split
  · simp [*]
  · split <;> simp [*]

theorem rest_advance (p : Place) (count : Nat) : (p.advance count).rest = p.rest.drop count := by
  induction count generalizing p with
  | zero => rfl
  | succ count ih => rw [advance, ih, rest_next, List.drop_tail]

end Place

end LinkSummary.Yaml
