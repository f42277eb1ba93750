import LinkSummary.Symbol.Id

/-!
# Calls

A function summary lists the calls that the function may make. A direct call is bound to its
callee. A virtual call names the implementation in the vtable of the receiver's static type, and a
witness call names the requirement of a protocol.
-/

namespace LinkSummary

/-- How a call reaches its callee. -/
inductive CallKind where
  | direct
  | virtual
  | witness
deriving DecidableEq, Inhabited

namespace CallKind

def toStored : CallKind → Nat
  | direct => 0
  | virtual => 1
  | witness => 2

def ofStored : Nat → Option CallKind
  | 0 => some direct
  | 1 => some virtual
  | 2 => some witness
  | _ => none

@[simp] theorem ofStored_toStored (k : CallKind) : ofStored k.toStored = some k := by
  cases k <;> rfl

def text : CallKind → String
  | direct => "direct"
  | virtual => "virtual"
  | witness => "witness"

/-- All kinds, in the order of their stored numbers. -/
def all : List CallKind := [direct, virtual, witness]

def ofText? (word : String) : Option CallKind :=
  all.find? (·.text = word)

@[simp] theorem ofText?_text (k : CallKind) : ofText? k.text = some k := by
  cases k <;> decide

/-- Whether only a dispatch table knows the target. -/
def isDynamic (k : CallKind) : Bool := k != direct

end CallKind

/-- A call that a function may make. -/
structure CallEdge where
  callee : SymbolId
  kind : CallKind
  preserved : Bool := false
deriving DecidableEq, Inhabited

end LinkSummary
