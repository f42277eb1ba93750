/-!
# Folded lines

In a scalar that goes over several lines, the blanks around a break do not count. A single line feed
stands for a blank, and of several the first does not count. A line separator is kept. What the
blanks and breaks read so far stand for is known only when text follows them.
-/

namespace LinkSummary.Yaml

/-- Text with the blanks and breaks that may follow it. All lists are in reverse order. -/
structure Folding where
  text : List Char := []
  blanks : List Char := []
  /-- The first break, unless it was escaped, and the breaks after it. -/
  breaks : Option (List Char × List Char) := none
deriving DecidableEq

namespace Folding

def afterBreak (f : Folding) : Bool := f.breaks.isSome

/-- A blank, which counts only on the line of the text. -/
def blank (f : Folding) (c : Char) : Folding :=
  if f.afterBreak then f else { f with blanks := c :: f.blanks }

def lineBreak (f : Folding) (c : Char) : Folding :=
  match f.breaks with
  | none => { f with blanks := [], breaks := some ([c], []) }
  | some (first, others) => { f with breaks := some (first, c :: others) }

/-- The text with what its blanks and breaks stand for. -/
def settle (f : Folding) : Folding :=
  match f.breaks with
  | none => { text := f.blanks ++ f.text }
  | some (['\n'], []) => { text := ' ' :: f.text }
  | some (['\n'], others) => { text := others ++ f.text }
  | some (first, others) => { text := others ++ first ++ f.text }

/-- An escaped break, which stands for nothing. -/
def joinLines (f : Folding) : Folding := { f.settle with breaks := some ([], []) }

def push (f : Folding) (c : Char) : Folding := { text := c :: f.settle.text }

def result (f : Folding) : String := .ofList f.text.reverse

end Folding

end LinkSummary.Yaml
