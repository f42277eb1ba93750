/-!
# Characters of YAML

The classes of characters by which YAML text is split and scalars are quoted.
-/

namespace LinkSummary.Yaml

/-- The end of a line: line feed, carriage return, next line, line separator, paragraph
separator. -/
def isBreak (c : Char) : Bool :=
  c == '\n' || c == '\r' || c == '\u0085' || c == '\u2028' || c == '\u2029'

def isBlank (c : Char) : Bool := c == ' ' || c == '\t'

/-- Whether a text ends, or goes on with a blank or a break. -/
def atGap : List Char → Bool
  | [] => true
  | c :: _ => isBlank c || isBreak c

/-- The characters that are written as they are. -/
def isPrintable (c : Char) : Bool :=
  c == '\n' || ('\x20' ≤ c && c ≤ '\x7e')
    || ('\u00a0' ≤ c && c != '\ufeff' && c != '\ufffe' && c != '\uffff')

/-- The characters that a text may contain at all. -/
def isAllowed (c : Char) : Bool :=
  c == '\t' || c == '\n' || c == '\r' || ('\x20' ≤ c && c ≤ '\x7e') || c == '\u0085'
    || ('\u00a0' ≤ c && c != '\ufffe' && c != '\uffff')

/-- The characters of anchors and of the handles of tags: letters, digits, `-` and `_`, all of
them ASCII. -/
def isWordChar (c : Char) : Bool := c.isAlphanum || c == '-' || c == '_'

/-- Whether a text begins with the mark that starts or ends a document. -/
def atDocumentMark : List Char → Bool
  | '-' :: '-' :: '-' :: cs => atGap cs
  | '.' :: '.' :: '.' :: cs => atGap cs
  | _ => false

end LinkSummary.Yaml
