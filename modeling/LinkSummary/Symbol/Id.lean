/-!
# Symbol ids

Names are referred to by 32-bit ids. An id has a meaning only together with the symbol table that
gave it out; the id `0` is reserved and stands for no symbol.
-/

namespace LinkSummary

/-- The identifier of an interned name. -/
structure SymbolId where
  val : UInt32
deriving DecidableEq, Inhabited

namespace SymbolId

/-! ### Order -/

instance : LT SymbolId := ⟨fun a b => a.val < b.val⟩

instance : LE SymbolId := ⟨fun a b => a.val ≤ b.val⟩

instance (a b : SymbolId) : Decidable (a < b) := inferInstanceAs (Decidable (a.val < b.val))

instance (a b : SymbolId) : Decidable (a ≤ b) := inferInstanceAs (Decidable (a.val ≤ b.val))

def toNat (a : SymbolId) : Nat := a.val.toNat

theorem toNat_injective {a b : SymbolId} (h : a.toNat = b.toNat) : a = b := by
  cases a; cases b
  simpa [toNat, UInt32.toNat_inj] using h

theorem lt_iff_toNat_lt {a b : SymbolId} : a < b ↔ a.toNat < b.toNat :=
  UInt32.lt_iff_toNat_lt

theorem le_iff_toNat_le {a b : SymbolId} : a ≤ b ↔ a.toNat ≤ b.toNat :=
  UInt32.le_iff_toNat_le

theorem toNat_lt (a : SymbolId) : a.toNat < UInt32.size := a.val.toNat_lt

theorem lt_irrefl (a : SymbolId) : ¬ a < a := by
  simp [lt_iff_toNat_lt]

theorem lt_trans {a b c : SymbolId} (hab : a < b) (hbc : b < c) : a < c := by
  rw [lt_iff_toNat_lt] at *
  omega

theorem ne_of_lt {a b : SymbolId} (h : a < b) : a ≠ b := by
  rintro rfl
  exact lt_irrefl a h

theorem lt_of_not_lt_of_ne {a b : SymbolId} (h : ¬ a < b) (hne : a ≠ b) : b < a := by
  rw [lt_iff_toNat_lt] at *
  have : a.toNat ≠ b.toNat := fun e => hne (toNat_injective e)
  omega

/-! ### The absent marker -/

def absent : SymbolId := ⟨0⟩

def isAbsent (a : SymbolId) : Bool := a == absent

/-- The id that a stored number stands for; `0` means that there is none. -/
def ofStored (n : UInt32) : Option SymbolId :=
  if n = 0 then none else some ⟨n⟩

def toStored (a : Option SymbolId) : UInt32 :=
  a.elim 0 (·.val)

theorem ofStored_toStored {a : Option SymbolId} (h : a ≠ some absent) :
    ofStored (toStored a) = a := by
  cases a with
  | none => rfl
  | some a =>
    have : a.val ≠ 0 := fun e => h (by cases a; simp_all [absent])
    simp [ofStored, toStored, this]

/-- An id is written as its number after a hash sign. -/
def text (a : SymbolId) : String := "#" ++ toString a.toNat

end SymbolId

end LinkSummary
