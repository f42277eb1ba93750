import LinkSummary.Json.Value

/-!
# Writing JSON

The compact form has no blanks. The indented form has one item or member on each line, two blanks
deeper than its brackets.
-/

namespace LinkSummary.Json

def quoted (spelling : String) : String := "\"" ++ spelling ++ "\""

def separated (separator : String) : List String → String
  | [] => ""
  | [s] => s
  | s :: ss => s ++ separator ++ separated separator ss

/-! ### Compact form -/

mutual

def compact : Json → String
  | .null => "null"
  | .bool true => "true"
  | .bool false => "false"
  | .number spelling => spelling
  | .text spelling => quoted spelling
  | .array items => "[" ++ separated "," (compactItems items) ++ "]"
  | .object members => "\x7b" ++ separated "," (compactMembers members) ++ "\x7d"

def compactItems : List Json → List String
  | [] => []
  | item :: items => compact item :: compactItems items

def compactMembers : List (String × Json) → List String
  | [] => []
  | (key, value) :: members => (quoted key ++ ":" ++ compact value) :: compactMembers members

end

/-! ### Indented form -/

def newLine (depth : Nat) : String := "\n" ++ String.ofList (List.replicate (2 * depth) ' ')

def bracketed (opening closing : String) (depth : Nat) : List String → String
  | [] => opening ++ closing
  | items =>
    opening ++ newLine (depth + 1) ++ separated ("," ++ newLine (depth + 1)) items
      ++ newLine depth ++ closing

mutual

def indented (depth : Nat) : Json → String
  | .array items => bracketed "[" "]" depth (indentedItems depth items)
  | .object members => bracketed "\x7b" "\x7d" depth (indentedMembers depth members)
  | .null => compact .null
  | .bool b => compact (.bool b)
  | .number spelling => compact (.number spelling)
  | .text spelling => compact (.text spelling)

def indentedItems (depth : Nat) : List Json → List String
  | [] => []
  | item :: items => indented (depth + 1) item :: indentedItems depth items

def indentedMembers (depth : Nat) : List (String × Json) → List String
  | [] => []
  | (key, value) :: members =>
    (quoted key ++ ": " ++ indented (depth + 1) value) :: indentedMembers depth members

end

def pretty (value : Json) : String := indented 0 value

end LinkSummary.Json
