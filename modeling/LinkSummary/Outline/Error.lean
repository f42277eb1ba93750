import LinkSummary.Store.Basic
import LinkSummary.Yaml.Place
import LinkSummary.Yaml.Resolution

/-!
# Why a text is no outline

The causes and their texts. A text that stands where something else should is shown in quotes. There
the characters that cannot be seen are written as their numbers.
-/

namespace LinkSummary

open Yaml

/-! ### Quotes -/

/-- The ranges of the characters that cannot be seen by themselves: controls, blanks but the space,
marks for layout and for combination, and those for private use. -/
def unseenRanges : List (Char × Char) :=
  [('\x00', '\x1f'), ('\x7f', '\u00a0'), ('\u00ad', '\u00ad'), ('\u0300', '\u036f'),
    ('\u0600', '\u0605'), ('\u061c', '\u061c'), ('\u1680', '\u1680'), ('\u180b', '\u180f'),
    ('\u2000', '\u200f'), ('\u2028', '\u202f'), ('\u205f', '\u206f'), ('\u20d0', '\u20ff'),
    ('\u3000', '\u3000'), ('\u302a', '\u302f'), ('\ue000', '\uf8ff'), ('\ufe00', '\ufe0f'),
    ('\ufe20', '\ufe2f'), ('\ufeff', '\ufeff'), ('\ufff0', '\ufffb'),
    (Char.ofNat 0xe0000, Char.ofNat 0x10ffff)]

/-- Whether a character cannot be seen by itself. -/
def isUnseen (c : Char) : Bool := unseenRanges.any fun (first, last) => first ≤ c && c ≤ last

def quotedChar (c : Char) : List Char :=
  match c with
  | '"' => ['\\', '"']
  | '\\' => ['\\', '\\']
  | '\x00' => ['\\', '0']
  | '\t' => ['\\', 't']
  | '\n' => ['\\', 'n']
  | '\r' => ['\\', 'r']
  | c =>
    if isUnseen c then ['\\', 'u', '\x7b'] ++ Nat.toDigits 16 c.toNat ++ ['\x7d'] else [c]

def quoted (s : String) : String := "\"" ++ String.ofList (s.toList.flatMap quotedChar) ++ "\""

/-! ### Causes -/

/-- What is wanted at a place where a text is wrong. -/
inductive Wanted where
  | truth
  | list
  | nothing
  | record (kind : String)
deriving DecidableEq

def Wanted.text : Wanted → String
  | truth => "a boolean"
  | list => "a sequence"
  | nothing => "unit"
  | record kind => "struct " ++ kind

def Yaml.ScalarKind.text : ScalarKind → String
  | nothing => "null"
  | truth => "a boolean"
  | integer => "an integer"
  | float => "a float"

/-- Why a text is no outline. -/
inductive YamlError where
  /-- The text cannot be read, or a value that is no text is not of the kind that stands there. -/
  | malformed
  | wrongType (text : String) (wanted : Wanted)
  | wrongValue (text : String) (kind : ScalarKind)
  | missingField (key : String)
  | duplicateField (key : String)
  /-- A word, which begins at a position if it is written, is none of the kinds of a call. -/
  | unknownKind (word : String) (position : Option Position)
deriving DecidableEq

namespace YamlError

def problem : YamlError → String
  | malformed => "the text is malformed"
  | wrongType text wanted => s!"invalid type: string {quoted text}, expected {wanted.text}"
  | wrongValue text kind => s!"invalid value: string {quoted text}, expected {kind.text}"
  | missingField key => s!"missing field `{key}`"
  | duplicateField key => s!"duplicate field `{key}`"
  | unknownKind word _ =>
    s!"unknown variant `{word}`, expected one of `direct`, `virtual`, `witness`"

/-- The words for where it is. The beginning of the text is not told. -/
def location : YamlError → String
  | unknownKind _ (some p) =>
    if p.line = 0 ∧ p.column = 0 then "" else s!" at line {p.line + 1} column {p.column + 1}"
  | _ => ""

def message (e : YamlError) : String := e.problem ++ e.location

end YamlError

/-- Why a text is no store. -/
inductive ImportError where
  | yaml (cause : YamlError)
  | summary (cause : SummaryError)
deriving DecidableEq

def ImportError.message : ImportError → String
  | yaml cause => "invalid summary YAML: " ++ cause.message
  | summary cause => "inconsistent summary: " ++ cause.message

end LinkSummary
