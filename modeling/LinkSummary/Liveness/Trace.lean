import LinkSummary.Store.Basic

/-!
# Why functions are live

A trace notes for each live function the first reason found for it. A reason that names a referrer
leads on to that function's own reason, and so back to a root.
-/

namespace LinkSummary

/-- How a function became live. -/
inductive LiveReason where
  | preserved
  | liveInInput
  | staticRef (referrer : SymbolId)
  | indirectRef (referrer : SymbolId)
deriving DecidableEq

/-- The function whose call is the reason, if one is. -/
def LiveReason.referrer : LiveReason → Option SymbolId
  | preserved | liveInInput => none
  | staticRef referrer | indirectRef referrer => some referrer

/-- The first reason noted for each function. -/
structure LivenessTrace where
  reasons : IdMap LiveReason := .empty
deriving DecidableEq, Inhabited

namespace LivenessTrace

def empty : LivenessTrace := {}

def reason? (t : LivenessTrace) (function : SymbolId) : Option LiveReason :=
  t.reasons.get? function

/-- Note a reason, unless the function has one. -/
def record (t : LivenessTrace) (function : SymbolId) (reason : LiveReason) : LivenessTrace :=
  if t.reasons.contains function then t else ⟨t.reasons.insert function reason⟩

def size (t : LivenessTrace) : Nat := t.reasons.size

/-! ### Chains -/

/-- The links from a function on, through functions not among those seen; at most `fuel`. -/
def chainFrom (t : LivenessTrace) : Nat → List SymbolId → SymbolId → List (SymbolId × LiveReason)
  | 0, _, _ => []
  | fuel + 1, seen, function =>
    match t.reason? function with
    | none => []
    | some reason =>
      if function ∈ seen then []
      else
        (function, reason) ::
          match reason.referrer with
          | none => []
          | some referrer => t.chainFrom fuel (function :: seen) referrer

/-- The referrers of a function, each with its own reason, back to a root, or up to the first
function without reason or seen before. A chain repeats no function, so it has no more links than
the trace has reasons. -/
def chain (t : LivenessTrace) (function : SymbolId) : List (SymbolId × LiveReason) :=
  t.chainFrom t.size [] function

/-! ### Texts -/

def linkText (shown : SymbolId → String) : SymbolId × LiveReason → String
  | (id, .preserved) => s!"  {shown id} is preserved\n"
  | (id, .liveInInput) => s!"  {shown id} was already live\n"
  | (id, .staticRef referrer) => s!"  {shown id} is called from {shown referrer}\n"
  | (id, .indirectRef referrer) => s!"  {shown id} is dispatched to from {shown referrer}\n"

/-- Why the function with a name is live or dead, with the names of a store. -/
def explain (t : LivenessTrace) (s : Store) (name : String) : String :=
  match s.functionNamed? name with
  | none => s!"no function named '{name}'\n"
  | some f =>
    match t.chain f.id with
    | [] => s!"'{name}' is dead\n"
    | links =>
      let shown id := (s.symbols.get? id).getD "<unknown>"
      s!"'{name}' is live:\n" ++ String.join (links.map (linkText shown))

end LivenessTrace

end LinkSummary
