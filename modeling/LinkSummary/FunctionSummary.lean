import LinkSummary.Call

/-!
# Function summaries

What a module records of a function it defines: flags, an optional readable name, and its calls in
the order in which they were recorded.
-/

namespace LinkSummary

/-- The flags of a function. Stored as a 32-bit mask whose three lowest bits are in use. -/
structure FunctionFlags where
  live : Bool := false
  /-- An entry point or visible from outside, hence always live. -/
  preserved : Bool := false
  fixedContents : Bool := false
  reserved : BitVec 29 := 0
deriving DecidableEq, Inhabited

namespace FunctionFlags

def empty : FunctionFlags := {}

def ofBits (bits : UInt32) : FunctionFlags where
  live := bits.toNat % 2 == 1
  preserved := bits.toNat / 2 % 2 == 1
  fixedContents := bits.toNat / 4 % 2 == 1
  reserved := .ofNat 29 (bits.toNat / 8)

/-- The flags with the bits without a meaning cleared. -/
def known (flags : FunctionFlags) : FunctionFlags := { flags with reserved := 0 }

def bits (flags : FunctionFlags) : UInt32 :=
  UInt32.ofNat (flags.live.toNat + 2 * flags.preserved.toNat + 4 * flags.fixedContents.toNat
    + 8 * flags.reserved.toNat)

theorem toNat_bits (flags : FunctionFlags) :
    flags.bits.toNat = flags.live.toNat + 2 * flags.preserved.toNat
      + 4 * flags.fixedContents.toNat + 8 * flags.reserved.toNat := by
  have h := flags.reserved.isLt
  have hl := Bool.toNat_le flags.live
  have hp := Bool.toNat_le flags.preserved
  have hf := Bool.toNat_le flags.fixedContents
  rw [bits, UInt32.toNat_ofNat_of_lt']
  change _ < 4294967296
  omega

@[simp] theorem ofBits_bits (flags : FunctionFlags) : ofBits flags.bits = flags := by
  obtain ⟨live, preserved, fixedContents, reserved⟩ := flags
  have h := toNat_bits ⟨live, preserved, fixedContents, reserved⟩
  cases live <;> cases preserved <;> cases fixedContents <;>
    simp only [Bool.toNat_true, Bool.toNat_false] at h <;>
    simp only [ofBits, mk.injEq, beq_iff_eq, beq_eq_false_iff_ne, ne_eq, ← BitVec.toNat_inj,
      BitVec.toNat_ofNat] <;>
    omega

def union (a b : FunctionFlags) : FunctionFlags := ofBits (a.bits ||| b.bits)

end FunctionFlags

/-- What is recorded of one defined function. -/
structure FunctionSummary where
  id : SymbolId
  debugName : Option String := none
  flags : FunctionFlags := .empty
  calls : List CallEdge := []
deriving DecidableEq, Inhabited

namespace FunctionSummary

def isLive (f : FunctionSummary) : Bool := f.flags.live

def isPreserved (f : FunctionSummary) : Bool := f.flags.preserved

/-- The function with one more call at the end. -/
def addCall (f : FunctionSummary) (edge : CallEdge) : FunctionSummary :=
  { f with calls := f.calls ++ [edge] }

def markLive (f : FunctionSummary) : FunctionSummary :=
  { f with flags := { f.flags with live := true } }

@[simp] theorem isLive_markLive (f : FunctionSummary) : f.markLive.isLive = true := rfl

end FunctionSummary

end LinkSummary
