import LinkSummary.Store.Basic

/-!
# Vtables of derived classes

A derived class has at least the slots of its base. Modules summarized apart can disagree on the
length of a base's vtable, so a table that ends too early can be continued with the slots of the
base. This goes in rounds: in each, every short table gets the slots that its base had when the
round began.
-/

namespace LinkSummary

namespace Store

/-- The error for a derived class with too few slots. -/
def shortVtableError (s : Store) (id : SymbolId) (slots : Nat) (base : SymbolId) (baseSlots : Nat) :
    SummaryError :=
  .shortVtable ((s.symbols.get? id).getD "?") ((s.symbols.get? base).getD "?") slots baseSlots

def baseOf? (s : Store) (t : TypeSummary) : Option TypeSummary := t.base >>= s.type?

/-- What is wrong with the vtable of a type, if anything. -/
def vtableError? (s : Store) (t : TypeSummary) : Option SummaryError :=
  match s.baseOf? t with
  | some base =>
    if t.slots.length < base.slots.length then
      some (s.shortVtableError t.id t.slots.length base.id base.slots.length)
    else none
  | none => none

/-- Check that no derived class has fewer slots than its base, the first in id order to fail being
reported. A base that the store does not define is not visible here. -/
def checkVtables (s : Store) : Except SummaryError Unit :=
  match s.types.values.findSome? s.vtableError? with
  | some e => .error e
  | none => .ok ()

/-! ### Inheriting missing slots -/

def missingSlots (s : Store) (t : TypeSummary) : List SymbolId :=
  match s.baseOf? t with
  | some base => base.slots.drop t.slots.length
  | none => []

/-- The types with a table shorter than their base's, and the slots they lack. -/
def shortTypes (s : Store) : List (SymbolId × List SymbolId) :=
  (s.types.values.map fun t => (t.id, s.missingSlots t)).filter fun (_, rest) => !rest.isEmpty

/-- The types extended so far, each with the first slot that it inherited. -/
abbrev Extensions := List (SymbolId × Nat)

/-- Continue the table of one type; the slot at which it was first continued is noted. -/
def extendSlots (acc : Store × Extensions) (short : SymbolId × List SymbolId) :
    Store × Extensions :=
  let (s, extended) := acc
  let (id, rest) := short
  match s.type? id with
  | none => (s, extended)
  | some t =>
    ({ s with types := s.types.modify id fun t => { t with slots := t.slots ++ rest } },
     if extended.any (·.1 = id) then extended else extended ++ [(id, t.slots.length)])

/-- One round: every short type gets the slots that its base has at the start of the round. -/
def inheritRound (acc : Store × Extensions) : Store × Extensions :=
  acc.1.shortTypes.foldl extendSlots acc

/-- Rounds until no type is short, at most `fuel` of them. -/
def inheritRounds : Nat → Store × Extensions → Store × Extensions
  | 0, acc => acc
  | fuel + 1, acc =>
    if acc.1.shortTypes.isEmpty then acc else inheritRounds fuel (inheritRound acc)

/-- A bound for the number of rounds. If they end, each has filled a slot and lengthened no table
beyond the longest, so there are no more of them than slots to be filled. In a store read from
outside an entry may be filed under another id; such a table may stay short for ever, and the rounds
stop here. -/
def roundBound (s : Store) : Nat :=
  (s.types.size + 1) * ((s.types.values.map (·.slots.length)).foldl max 0 + 1)

/-- Continue every vtable shorter than its base's with the entries of the base. The types extended
are listed with the first slot that each inherited. -/
def inheritMissingSlots (s : Store) : Store × Extensions :=
  inheritRounds s.roundBound (s, [])

/-- The outcome of rounds without a bound on their number. There is none if a type stays short for
ever, and the bounded rounds tell whether it does. -/
def inheritMissingSlots? (s : Store) : Option (Store × Extensions) :=
  let r := s.inheritMissingSlots
  if r.1.shortTypes.isEmpty then some r else none

end Store

end LinkSummary
