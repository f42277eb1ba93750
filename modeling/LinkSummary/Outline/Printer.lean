import LinkSummary.Outline
import LinkSummary.Yaml.Printer

/-!
# Outlines as YAML

An outline is written as a block mapping after a line that tells the version. Each level of mappings
is two blanks deeper than the one around it; the dashes of a list stand below the key of the list.
Empty lists and absent texts are left out.
-/

namespace LinkSummary

open Yaml

namespace Outline

def header : String := "# Module-summary v1\n"

/-- What stands after the colon of a key, given the depth of the key. -/
abbrev FieldText := Nat → List Char

def textField (s : String) : FieldText := fun depth => ' ' :: scalarLine (depth + 2) s

def wordField (s : String) : FieldText := fun _ => ' ' :: s.toList ++ ['\n']

def boolField (b : Bool) : FieldText := wordField (if b then "true" else "false")

/-- The fields of a mapping at a depth, the first after the given lead. -/
def fields (depth : Nat) (lead : List Char) : List (String × FieldText) → List Char
  | [] => []
  | (key, value) :: others =>
    lead ++ key.toList ++ ':' :: value depth ++ fields depth (margin depth) others

def dash (depth : Nat) : List Char := margin depth ++ ['-', ' ']

def recordsField (items : List (List (String × FieldText))) : FieldText := fun depth =>
  '\n' :: items.flatMap (fields (depth + 2) (dash depth))

def textsField (items : List String) : FieldText := fun depth =>
  '\n' :: items.flatMap fun s => dash depth ++ scalarLine (depth + 2) s

def optionalField (key : String) : Option String → List (String × FieldText)
  | none => []
  | some s => [(key, textField s)]

def listField {α : Type} (key : String) (items : List α) (value : List α → FieldText) :
    List (String × FieldText) :=
  if items.isEmpty then [] else [(key, value items)]

def callFields (call : CallOutline) : List (String × FieldText) :=
  [("callee", textField call.callee), ("kind", wordField call.kind.text),
    ("preserved", boolField call.preserved)]

def functionFields (f : FunctionOutline) : List (String × FieldText) :=
  ("name", textField f.name) :: optionalField "debug_name" f.debugName
    ++ [("live", boolField f.live), ("preserved", boolField f.preserved),
      ("fixed_contents", boolField f.fixedContents)]
    ++ listField "calls" f.calls fun calls => recordsField (calls.map callFields)

def witnessFields (witness : WitnessOutline) : List (String × FieldText) :=
  [("requirement", textField witness.requirement),
    ("implementation", textField witness.implementation)]

def typeFields (t : TypeOutline) : List (String × FieldText) :=
  ("name", textField t.name) :: optionalField "base" t.base
    ++ listField "vtable" t.vtable textsField
    ++ listField "witnesses" t.witnesses fun witnesses =>
      recordsField (witnesses.map witnessFields)

def moduleFields (o : Outline) : List (String × FieldText) :=
  [("module_name", textField o.moduleName), ("liveness_computed", boolField o.livenessComputed)]
    ++ listField "functions" o.functions (fun fs => recordsField (fs.map functionFields))
    ++ listField "types" o.types fun ts => recordsField (ts.map typeFields)

def toYaml (o : Outline) : String := header ++ .ofList (fields 0 [] o.moduleFields)

end Outline

def Store.toYaml (s : Store) : String := s.outline.toYaml

end LinkSummary
