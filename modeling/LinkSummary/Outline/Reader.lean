import LinkSummary.Outline
import LinkSummary.Outline.Error
import LinkSummary.Utf8
import LinkSummary.Yaml.Document
import LinkSummary.Yaml.Resolution

/-!
# Outlines from YAML

A record is a mapping. Keys that are not known are passed over with their values. Nothing stands for
an empty record and for an empty list.
-/

namespace LinkSummary

open Yaml

namespace Outline

/-- A reader of the nodes of a document. It counts the references that it follows. -/
abbrev NodeReader := ReaderT Document (StateT Nat (Except YamlError))

def malformed {α : Type} : NodeReader α := throw .malformed

/-- Follow a reference. A document may lead to no more than 100 references for each of its
events. -/
def follow : Node → NodeReader Node
  | .reference number => do
    let d ← read
    modify (· + 1)
    if (← get) > 100 * d.size then malformed
    else
      match d.target? number with
      | some node => return node
      | none => malformed
  | node => return node

/-! ### Values -/

def readText (node : Node) : NodeReader String := do
  match ← follow node with
  | .scalar _ _ _ text => return text
  | _ => malformed

/-- A text that is absent if nothing or a word for nothing is written plainly. -/
def readOptionalText (node : Node) : NodeReader (Option String) := do
  match ← follow node with
  | .scalar _ none .plain text => return if text.isEmpty || isNull text then none else some text
  | .scalar _ (some tag) .plain text =>
    if tag = ScalarKind.nothing.tag then
      if isNull text then return none else throw (.wrongValue text .nothing)
    else return some text
  | .scalar _ _ _ text => return some text
  | _ => malformed

/-- Refuse a scalar where something else is wanted. A tag says what it stands for, unless the tag is
no address and the scalar is plain. -/
def refuse {α : Type} (tag : Option Octets) (style : ScalarStyle) (text : String)
    (wanted : Wanted) : NodeReader α :=
  match tag >>= ScalarKind.ofTag? with
  | some kind => if kind.spells text then malformed else throw (.wrongValue text kind)
  | none =>
    if style = .plain && tag.all isLocalTag && (plainKind? text).isSome then malformed
    else throw (.wrongType text wanted)

/-- A truth value, written plainly, or as a block with the tag of truth values. -/
def readBool (node : Node) : NodeReader Bool := do
  match ← follow node with
  | .scalar _ tag style text =>
    match truth? text with
    | some b =>
      if style = .plain ∨ (style = .literal ∧ tag = some ScalarKind.truth.tag) then return b
      else refuse tag style text .truth
    | none => refuse tag style text .truth
  | _ => malformed

/-- The word of a tag that is not an address but a mark and a word. -/
def wordOfTag? (tag : Octets) : Option String :=
  if isLocalTag tag then Utf8.decode? (if tag.tail.isEmpty then tag else tag.tail) else none

/-- The kind of calls with a word that begins at a position. -/
def kindOfWord (word : String) (position : Option Position) : NodeReader CallKind :=
  match CallKind.ofText? word with
  | some kind => return kind
  | none => throw (.unknownKind word position)

/-- Nothing, or a word for it, written plainly. -/
def readNothing : Node → NodeReader Unit
  | .scalar _ _ style text =>
    if style = .plain ∧ (text.isEmpty ∨ isNull text) then return ()
    else throw (.wrongType text .nothing)
  | _ => malformed

/-- A kind of calls, by its word. The word is the text of a scalar, or else the tag of nothing. -/
def readKind (node : Node) : NodeReader CallKind := do
  let node ← follow node
  match node.tag >>= wordOfTag?, node with
  | some word, node =>
    let kind ← kindOfWord word node.position
    readNothing node
    return kind
  | none, .scalar position _ _ word => kindOfWord word position
  | none, _ => malformed

def readList {α : Type} (readItem : Node → NodeReader α) (node : Node) : NodeReader (List α) := do
  match ← follow node with
  | .sequence _ nodes closed =>
    let items ← nodes.mapM readItem
    if closed then return items else malformed
  | .scalar _ tag style text =>
    if style = .plain ∧ text = "" then return [] else refuse tag style text .list
  | _ => malformed

/-! ### Records -/

/-- A field of a record. -/
structure Field (ρ : Type) where
  key : String
  required : Bool := false
  set : ρ → Node → NodeReader ρ

variable {ρ : Type}

/-- The record with the fields of a mapping, and the keys that it has, given those it had before. -/
def readEntries (fields : List (Field ρ)) (seen : List String) (r : ρ) :
    List Node → NodeReader (ρ × List String)
  | [] => return (r, seen)
  | [key] => do
    let key ← readText key
    if (fields.any (·.key == key)) && seen.contains key then throw (.duplicateField key)
    else malformed
  | key :: value :: parts => do
    let key ← readText key
    match fields.find? (·.key == key) with
    | none => readEntries fields seen r parts
    | some field =>
      if seen.contains key then throw (.duplicateField key)
      else readEntries fields (key :: seen) (← field.set r value) parts

/-- The record, if it has all the keys that it has to have. -/
def requireFields (fields : List (Field ρ)) (seen : List String) (r : ρ) : NodeReader ρ :=
  match fields.find? fun field => field.required && !seen.contains field.key with
  | some field => throw (.missingField field.key)
  | none => return r

/-- A record of some kind, given the one without any fields. -/
def readRecord (kind : String) (fields : List (Field ρ)) (blank : ρ) (node : Node) :
    NodeReader ρ := do
  match ← follow node with
  | .mapping _ parts closed =>
    let (r, seen) ← readEntries fields [] blank parts
    if closed then requireFields fields seen r else malformed
  | .scalar _ tag style text =>
    if style = .plain ∧ text = "" then requireFields fields [] blank
    else refuse tag style text (.record kind)
  | _ => malformed

/-! ### Outlines -/

def readCall : Node → NodeReader CallOutline :=
  readRecord "YamlCall"
    [{ key := "callee", required := true
       set := fun r node => return { r with callee := ← readText node } },
     { key := "kind", required := true
       set := fun r node => return { r with kind := ← readKind node } },
     { key := "preserved", set := fun r node => return { r with preserved := ← readBool node } }]
    { callee := "", kind := .direct }

def readFunction : Node → NodeReader FunctionOutline :=
  readRecord "YamlFunction"
    [{ key := "name", required := true
       set := fun r node => return { r with name := ← readText node } },
     { key := "debug_name"
       set := fun r node => return { r with debugName := ← readOptionalText node } },
     { key := "live", set := fun r node => return { r with live := ← readBool node } },
     { key := "preserved", set := fun r node => return { r with preserved := ← readBool node } },
     { key := "fixed_contents"
       set := fun r node => return { r with fixedContents := ← readBool node } },
     { key := "calls"
       set := fun r node => return { r with calls := ← readList readCall node } }]
    { name := "" }

def readWitness : Node → NodeReader WitnessOutline :=
  readRecord "YamlWitness"
    [{ key := "requirement", required := true
       set := fun r node => return { r with requirement := ← readText node } },
     { key := "implementation", required := true
       set := fun r node => return { r with implementation := ← readText node } }]
    { requirement := "", implementation := "" }

def readType : Node → NodeReader TypeOutline :=
  readRecord "YamlType"
    [{ key := "name", required := true
       set := fun r node => return { r with name := ← readText node } },
     { key := "base", set := fun r node => return { r with base := ← readOptionalText node } },
     { key := "vtable"
       set := fun r node => return { r with vtable := ← readList readText node } },
     { key := "witnesses"
       set := fun r node => return { r with witnesses := ← readList readWitness node } }]
    { name := "" }

def readModule : Node → NodeReader Outline :=
  readRecord "YamlModule"
    [{ key := "module_name", required := true
       set := fun r node => return { r with moduleName := ← readText node } },
     { key := "liveness_computed"
       set := fun r node => return { r with livenessComputed := ← readBool node } },
     { key := "functions"
       set := fun r node => return { r with functions := ← readList readFunction node } },
     { key := "types"
       set := fun r node => return { r with types := ← readList readType node } }]
    { moduleName := "" }

def ofDocument (d : Document) : Except YamlError Outline :=
  match d.root with
  | none => .error .malformed
  | some root =>
    match (readModule root).run d |>.run 0 with
    | .error e => .error e
    | .ok (o, _) => if d.whole then .ok o else .error .malformed

def ofYaml (s : String) : Except YamlError Outline := ofDocument (.ofText s)

end Outline

/-- The store whose outline a YAML text shows. -/
def Store.ofYaml (s : String) : Except ImportError Store :=
  match Outline.ofYaml s with
  | .error e => .error (.yaml e)
  | .ok o =>
    match o.toStore with
    | .error e => .error (.summary e)
    | .ok s => .ok s

end LinkSummary
