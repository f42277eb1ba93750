import LinkSummary.Yaml.Event

/-!
# Documents of YAML

A document is a tree of nodes. Where a text breaks off, the collections that are open have the nodes
read so far, and are not closed.
-/

namespace LinkSummary.Yaml

/-- A node. -/
inductive Node where
  | scalar (position : Option Position) (tag : Option Octets) (style : ScalarStyle) (text : String)
  | reference (number : Nat)
  | sequence (tag : Option Octets) (items : List Node) (closed : Bool)
  | mapping (tag : Option Octets) (parts : List Node) (closed : Bool)
deriving Inhabited

def Node.tag : Node → Option Octets
  | scalar _ tag .. | sequence tag .. | mapping tag .. => tag
  | reference _ => none

def Node.position : Node → Option Position
  | scalar position .. => position
  | _ => none

/-- A node that can be referred to. -/
structure AnchoredNode where
  number : Nat
  start : Nat
  node : Node

/-- A document. -/
structure Document where
  /-- The outermost node, unless the document breaks off before it. -/
  root : Option Node
  anchored : List AnchoredNode
  size : Nat
  whole : Bool

/-- The node with a number. Of several it is the one that begins last. -/
def Document.target? (d : Document) (number : Nat) : Option Node :=
  let later (best : Option AnchoredNode) (a : AnchoredNode) :=
    if a.number = number ∧ best.all (·.start < a.start) then some a else best
  (d.anchored.foldl later none).map (·.node)

/-! ### From events -/

/-- A collection that is open. -/
structure OpenCollection where
  number : Option Nat
  start : Nat
  isMapping : Bool
  tag : Option Octets
  parts : List Node := []

def OpenCollection.node (c : OpenCollection) (closed : Bool) : Node :=
  if c.isMapping then .mapping c.tag c.parts.reverse closed
  else .sequence c.tag c.parts.reverse closed

/-- A document that is being read. -/
structure Draft where
  size : Nat := 0
  numbers : List (String × Nat) := []
  anchored : List AnchoredNode := []
  opened : List OpenCollection := []
  root : Option Node := none

namespace Draft

/-- Give the next node a number. An anchor that is used again stands for a new number: the number
of anchors told apart so far. -/
def name (d : Draft) : Option String → Option Nat × Draft
  | none => (none, d)
  | some anchor =>
    let number := d.numbers.length
    (some number, { d with numbers := (anchor, number) :: d.numbers.filter (·.1 ≠ anchor) })

/-- Put a finished node that began after some events into the innermost collection. -/
def add (d : Draft) (number : Option Nat) (start : Nat) (node : Node) : Draft :=
  let anchored :=
    match number with
    | some number => ⟨number, start, node⟩ :: d.anchored
    | none => d.anchored
  match d.opened with
  | [] => { d with anchored, root := some node }
  | c :: others => { d with anchored, opened := { c with parts := node :: c.parts } :: others }

def close (d : Draft) (closed : Bool) : Draft :=
  match d.opened with
  | [] => d
  | c :: others => { d with opened := others }.add c.number c.start (c.node closed)

def begin (d : Draft) (anchor : Option String) (tag : Option Octets) (isMapping : Bool) : Draft :=
  let (number, d) := d.name anchor
  { d with opened := { number, start := d.size, isMapping, tag } :: d.opened }

/-- Take an event. A reference to an anchor that is not known is none. -/
def take? (d : Draft) (event : Event) : Option Draft := do
  let taken ←
    match event with
    | .reference name =>
      (d.numbers.lookup name).map fun number => d.add none d.size (.reference number)
    | .scalar position anchor tag style text =>
      let (number, d) := d.name anchor
      some (d.add number d.size (.scalar position tag style text))
    | .sequenceStart anchor tag => some (d.begin anchor tag false)
    | .mappingStart anchor tag => some (d.begin anchor tag true)
    | .sequenceEnd | .mappingEnd => some (d.close true)
  return { taken with size := d.size + 1 }

/-- Take events, up to the first that cannot be taken. Tells whether all could. -/
def takeAll (d : Draft) : List Event → Draft × Bool
  | [] => (d, true)
  | event :: events =>
    match d.take? event with
    | some d => d.takeAll events
    | none => (d, false)

/-- Finish all open collections, without closing them. -/
def breakOff (d : Draft) : Draft := d.opened.foldl (fun d _ => d.close false) d

end Draft

/-- The first document of a text, as far as it can be read. -/
def Document.ofEvents (stream : EventStream) : Document :=
  let (draft, known) := Draft.takeAll {} stream.events
  let draft := draft.breakOff
  { root := draft.root
    anchored := draft.anchored
    size := draft.size
    whole := known && stream.complete && stream.single }

/-- The first document of a text, as far as it can be read. -/
def Document.ofText (s : String) : Document := .ofEvents (eventsOf (tokensOf s))

end LinkSummary.Yaml
