import LinkSummary.Yaml.Token.Lexer

/-!
# Events of YAML

The events of a document are its nodes in the order of the text: each scalar and each reference, and
the beginning and the end of each collection. They are told from the tokens by what may come next in
each of the open collections.
-/

namespace LinkSummary.Yaml

/-- An event. -/
inductive Event where
  | reference (name : String)
  /-- A scalar with its anchor and its tag, and where it begins with them, if it is written. -/
  | scalar (position : Option Position) (anchor : Option String) (tag : Option Octets)
    (style : ScalarStyle) (text : String)
  | sequenceStart (anchor : Option String) (tag : Option Octets)
  | sequenceEnd
  /-- The beginning of a mapping with its anchor and its tag. -/
  | mappingStart (anchor : Option String) (tag : Option Octets)
  | mappingEnd
deriving DecidableEq

/-- The scalar that stands where nothing is written. -/
def Event.nothing : Event := .scalar none none none .plain ""

/-- What may come next in a collection. -/
inductive Expectation where
  | blockItem
  /-- An item of a list whose dashes stand below the key of the list, or its end. -/
  | dash
  | blockKey
  | blockValue
  /-- An item of a list in brackets, or its end; all but the first after a comma. -/
  | flowItem (first : Bool)
  /-- The key of a pair that is an item of a list in brackets. -/
  | pairKey
  | pairValue
  | pairEnd
  /-- A key of a mapping in brackets, or its end; all but the first after a comma. -/
  | flowKey (first : Bool)
  | flowValue
  /-- No value, after an item of a mapping in brackets that was not marked as a key. -/
  | flowNoValue
deriving DecidableEq

/-- An event, the tokens after it, and what is expected in the open collections, the innermost
first. -/
structure Step where
  event : Event
  tokens : List Token
  expected : List Expectation
deriving DecidableEq

/-! ### Nodes -/

/-- What may stand in front of a node. -/
structure Properties where
  position : Option Position := none
  anchor : Option String := none
  tag : Option Octets := none
deriving DecidableEq

/-- The properties in front of a node, in any order, and the tokens after them. -/
def readProperties (handles : List (Octets × Octets)) :
    List Token → Option (Properties × List Token)
  | .anchor position name :: .tag _ tag :: ts => do
    return (⟨position, name, ← tag.resolve? handles⟩, ts)
  | .tag position tag :: .anchor _ name :: ts => do
    return (⟨position, name, ← tag.resolve? handles⟩, ts)
  | .anchor position name :: ts => some (⟨position, name, none⟩, ts)
  | .tag position tag :: ts => do return (⟨position, none, ← tag.resolve? handles⟩, ts)
  | ts => some ({}, ts)

/-- The first event of a node with properties, where a list may begin with a dash or not. Nothing
but the properties is a scalar too. -/
def beginContent (dashes : Bool) (expected : List Expectation) (p : Properties) :
    List Token → Option Step
  | [] => none
  | .scalar position style text :: ts =>
    some ⟨.scalar (p.position.getD position) p.anchor p.tag style text, ts, expected⟩
  | .flowSequenceStart :: ts =>
    some ⟨.sequenceStart p.anchor p.tag, ts, .flowItem true :: expected⟩
  | .flowMappingStart :: ts => some ⟨.mappingStart p.anchor p.tag, ts, .flowKey true :: expected⟩
  | .blockSequenceStart :: ts => some ⟨.sequenceStart p.anchor p.tag, ts, .blockItem :: expected⟩
  | .blockMappingStart :: ts => some ⟨.mappingStart p.anchor p.tag, ts, .blockKey :: expected⟩
  | t :: ts =>
    if dashes ∧ t = .blockEntry then
      some ⟨.sequenceStart p.anchor p.tag, t :: ts, .dash :: expected⟩
    else if p = {} then none
    else some ⟨.scalar p.position p.anchor p.tag .plain "", t :: ts, expected⟩

def beginNode (handles : List (Octets × Octets)) (dashes : Bool) (expected : List Expectation) :
    List Token → Option Step
  | .reference name :: ts => some ⟨.reference name, ts, expected⟩
  | ts => do
    let (properties, ts) ← readProperties handles ts
    beginContent dashes expected properties ts

/-- The first event of a node, or of nothing in front of a token that ends its place. -/
def beginNodeUnless (ends : List Token) (handles : List (Octets × Octets)) (dashes : Bool)
    (expected : List Expectation) : List Token → Option Step
  | [] => none
  | t :: ts =>
    if t ∈ ends then some ⟨.nothing, t :: ts, expected⟩
    else beginNode handles dashes expected (t :: ts)

/-- An event that takes no token, though one has to follow. -/
def withoutToken (event : Event) (expected : List Expectation) (ts : List Token) : Option Step :=
  if ts.isEmpty then none else some ⟨event, ts, expected⟩

/-! ### Collections -/

/-- What follows the comma between items in brackets. The first item has none. -/
def afterComma (first : Bool) : List Token → Option (List Token)
  | .flowEntry :: ts => if first then some (.flowEntry :: ts) else some ts
  | ts => if first then some ts else none

/-- The first event of an item in square brackets. -/
def beginFlowItem (handles : List (Octets × Octets)) (outer : List Expectation) :
    List Token → Option Step
  | .flowSequenceEnd :: ts => some ⟨.sequenceEnd, ts, outer⟩
  | .key :: ts => some ⟨.mappingStart none none, ts, .pairKey :: outer⟩
  | ts => beginNode handles false (.flowItem false :: outer) ts

/-- The first event of a key in curly brackets. -/
def beginFlowKey (handles : List (Octets × Octets)) (outer : List Expectation) :
    List Token → Option Step
  | .flowMappingEnd :: ts => some ⟨.mappingEnd, ts, outer⟩
  | .key :: ts =>
    beginNodeUnless [.value, .flowEntry, .flowMappingEnd] handles false (.flowValue :: outer) ts
  | ts => beginNode handles false (.flowNoValue :: outer) ts

/-- The next event, given what is expected in the innermost collection and in those around it. -/
def Expectation.step (handles : List (Octets × Octets)) (outer : List Expectation)
    (expectation : Expectation) (ts : List Token) : Option Step :=
  match expectation, ts with
  | .blockItem, .blockEntry :: ts =>
    beginNodeUnless [.blockEntry, .blockEnd] handles false (.blockItem :: outer) ts
  | .blockItem, .blockEnd :: ts => some ⟨.sequenceEnd, ts, outer⟩
  | .blockItem, _ => none
  | .dash, .blockEntry :: ts =>
    beginNodeUnless [.blockEntry, .key, .value, .blockEnd] handles false (.dash :: outer) ts
  | .dash, ts => withoutToken .sequenceEnd outer ts
  | .blockKey, .key :: ts =>
    beginNodeUnless [.key, .value, .blockEnd] handles true (.blockValue :: outer) ts
  | .blockKey, .blockEnd :: ts => some ⟨.mappingEnd, ts, outer⟩
  | .blockKey, _ => none
  | .blockValue, .value :: ts =>
    beginNodeUnless [.key, .value, .blockEnd] handles true (.blockKey :: outer) ts
  | .blockValue, ts => withoutToken .nothing (.blockKey :: outer) ts
  | .flowItem _, .flowSequenceEnd :: ts => some ⟨.sequenceEnd, ts, outer⟩
  | .flowItem first, ts => (afterComma first ts).bind (beginFlowItem handles outer)
  | .pairKey, t :: ts =>
    -- a token that ends the place of a key goes with it
    if t ∈ [.value, .flowEntry, .flowSequenceEnd] then some ⟨.nothing, ts, .pairValue :: outer⟩
    else beginNode handles false (.pairValue :: outer) (t :: ts)
  | .pairKey, [] => none
  | .pairValue, .value :: ts =>
    beginNodeUnless [.flowEntry, .flowSequenceEnd] handles false (.pairEnd :: outer) ts
  | .pairValue, ts => withoutToken .nothing (.pairEnd :: outer) ts
  | .pairEnd, ts => withoutToken .mappingEnd (.flowItem false :: outer) ts
  | .flowKey _, .flowMappingEnd :: ts => some ⟨.mappingEnd, ts, outer⟩
  | .flowKey first, ts => (afterComma first ts).bind (beginFlowKey handles outer)
  | .flowValue, .value :: ts =>
    beginNodeUnless [.flowEntry, .flowMappingEnd] handles false (.flowKey false :: outer) ts
  | .flowValue, ts => withoutToken .nothing (.flowKey false :: outer) ts
  | .flowNoValue, ts => withoutToken .nothing (.flowKey false :: outer) ts

/-- The events from a step on, and the tokens after the node, unless it breaks off. -/
def Step.follow (handles : List (Octets × Octets)) : Nat → Step → List Event × Option (List Token)
  | _, ⟨event, ts, []⟩ => ([event], some ts)
  | 0, ⟨event, _, _ :: _⟩ => ([event], none)
  | fuel + 1, ⟨event, ts, expectation :: outer⟩ =>
    match expectation.step handles outer ts with
    | none => ([event], none)
    | some step =>
      let (events, rest) := follow handles fuel step
      (event :: events, rest)

/-! ### Documents -/

/-- The events of the first document of a text. -/
structure EventStream where
  events : List Event
  complete : Bool
  single : Bool
deriving DecidableEq

/-- The handles of tags that the directives of a document tell, and the tokens after them. The
version is told at most once, and so is each handle. -/
def readDirectives (versionTold : Bool) (handles : List (Octets × Octets)) :
    List Token → Option (List (Octets × Octets) × List Token)
  | .version major minor :: ts =>
    if versionTold || major != 1 || (minor != 1 && minor != 2) then none
    else readDirectives true handles ts
  | .handle handle pre :: ts =>
    if (handles.lookup handle).isSome then none
    else readDirectives versionTold (handles ++ [(handle, pre)]) ts
  | ts => some (handles ++ defaultHandles, ts)

/-- Whether a token can only stand outside of nodes. -/
def Token.isOutside : Token → Bool
  | .version .. | .handle .. | .documentStart | .documentEnd | .streamEnd => true
  | _ => false

/-- The handles of a document and its first event. The mark `---` may be missing if there are no
directives. -/
def beginDocument (ts : List Token) : Option (List (Octets × Octets) × Step) :=
  match ts with
  | .version .. :: _ | .handle .. :: _ | .documentStart :: _ => do
    let (handles, ts) ← readDirectives false [] ts
    guard (ts.head? = some .documentStart)
    match ts.tail with
    | [] => none
    | t :: ts =>
      if t.isOutside then return (handles, ⟨.nothing, t :: ts, []⟩)
      else return (handles, ← beginNode handles false [] (t :: ts))
  | ts => do return (defaultHandles, ← beginNode defaultHandles false [] ts)

def endsAfter (ts : List Token) : Bool :=
  (ts.dropWhile (· == .documentEnd)).head? == some .streamEnd

/-- The events of the first document in a list of tokens. A text without any is a document of
nothing. The events that take no token stand between those that take one, and are not more than a
few for each: the fuel is enough. -/
def eventsOf (ts : List Token) : EventStream :=
  if ts.head? = some .streamEnd then ⟨[.nothing], true, true⟩
  else
    match beginDocument ts with
    | none => ⟨[], false, false⟩
    | some (handles, step) =>
      let (events, rest) := step.follow handles (8 * (ts.length + 1))
      match rest with
      | none | some [] => ⟨events, false, false⟩
      | some (t :: ts) => ⟨events, true, endsAfter (t :: ts)⟩

end LinkSummary.Yaml
