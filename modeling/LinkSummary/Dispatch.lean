import LinkSummary.Store.Basic

/-!
# Dispatch tables

An index of the dispatch tables of a store: who derives from a type, which slots hold an
implementation, and which implementations a requirement has. From it follow the implementations
that a call may reach: a virtual call those in the same slot of every type derived from one that
holds its callee there, a witness call those of every conformance.
-/

namespace LinkSummary

/-- A slot of a vtable. -/
structure SlotOwner where
  type : SymbolId
  slot : Nat
deriving DecidableEq

/-- The dispatch tables of a store, turned around. Each list is in the order of the types, and
within a type in the order of its table. -/
structure DispatchIndex where
  derived : List (SymbolId × SymbolId) := []
  owners : List (SymbolId × SlotOwner) := []
  conformances : List (SymbolId × SymbolId) := []
deriving DecidableEq

/-- The implementations that a call may reach. -/
structure DispatchTargets where
  implementations : List SymbolId
  /-- Whether the call is direct or some table holds its callee. -/
  resolved : Bool
deriving DecidableEq

def sortedIds (ids : List SymbolId) : List SymbolId :=
  ((ids.map fun id => (id, ())) |> IdMap.ofList).keys

namespace DispatchIndex

def under {α : Type} (pairs : List (SymbolId × α)) (key : SymbolId) : List α :=
  pairs.filterMap fun (k, a) => if k = key then some a else none

def ofStore (s : Store) : DispatchIndex where
  derived := s.types.values.filterMap fun t => t.base.map fun base => (base, t.id)
  owners := s.types.values.flatMap fun t =>
    t.slots.zipIdx.map fun (implementation, slot) => (implementation, ⟨t.id, slot⟩)
  conformances := s.types.values.flatMap fun t => t.witnesses.entries

def derivedFrom (x : DispatchIndex) (type : SymbolId) : List SymbolId := under x.derived type

def slotOwners (x : DispatchIndex) (implementation : SymbolId) : List SlotOwner :=
  under x.owners implementation

/-- The implementations of a requirement, one for each conformance. -/
def witnessImplementations (x : DispatchIndex) (requirement : SymbolId) : List SymbolId :=
  under x.conformances requirement

/-! ### Subtypes -/

/-- A depth-first search: the types seen, and those of them that are still to be followed to the
types derived from them, the last found first. -/
structure Search where
  seen : List SymbolId
  stack : List SymbolId

/-- Come to a type, which is to be followed if it was not seen before. -/
def Search.visit (search : Search) (type : SymbolId) : Search :=
  if type ∈ search.seen then search else ⟨search.seen ++ [type], type :: search.stack⟩

/-- The number of entries in the index whose derived type is not among those seen. -/
def unseen (x : DispatchIndex) (seen : List SymbolId) : Nat :=
  x.derived.countP fun e => e.2 ∉ seen

theorem unseen_append_lt {x : DispatchIndex} {seen fresh : List SymbolId}
    {e : SymbolId × SymbolId} (hx : e ∈ x.derived) (hseen : e.2 ∉ seen) (hfresh : e.2 ∈ fresh) :
    x.unseen (seen ++ fresh) < x.unseen seen := by
  simp only [unseen]
  generalize x.derived = es at hx
  induction es with
  | nil => cases hx
  | cons e' es ih =>
    have hle : es.countP (fun e => e.2 ∉ seen ++ fresh) ≤ es.countP (fun e => e.2 ∉ seen) :=
      List.countP_mono_left (by simp +contextual)
    rcases List.mem_cons.1 hx with rfl | hx
    · rw [List.countP_cons_of_neg (by simp [hfresh]), List.countP_cons_of_pos (by simp [hseen])]
      omega
    · have := ih hx
      by_cases he : e'.2 ∈ seen
      · rwa [List.countP_cons_of_neg (by simp [he]), List.countP_cons_of_neg (by simp [he])]
      · rw [List.countP_cons_of_pos (l := es) (p := fun e => e.2 ∉ seen) (by simp [he]),
          List.countP_cons]
        split <;> omega

/-- How many types a search follows at most: each entry in the index leads to a new one at most
once. -/
def remaining (x : DispatchIndex) (search : Search) : Nat :=
  x.unseen search.seen + search.stack.length

theorem remaining_foldl_visit_le {x : DispatchIndex} {types : List SymbolId} (search : Search)
    (h : ∀ type ∈ types, ∃ base, (base, type) ∈ x.derived) :
    x.remaining (types.foldl Search.visit search) ≤ x.remaining search := by
  induction types generalizing search with
  | nil => exact Nat.le_refl _
  | cons type types ih =>
    obtain ⟨⟨base, hbase⟩, hrest⟩ := List.forall_mem_cons.1 h
    refine Nat.le_trans (ih (search.visit type) hrest) ?_
    rw [Search.visit]
    split
    · exact Nat.le_refl _
    · rename_i hseen
      have hlt := unseen_append_lt hbase hseen (List.mem_singleton_self type)
      simp only [remaining, List.length_cons]
      omega

theorem mem_derivedFrom {x : DispatchIndex} {type sub : SymbolId} :
    sub ∈ x.derivedFrom type ↔ (type, sub) ∈ x.derived := by
  simp only [derivedFrom, under, List.mem_filterMap]
  grind

/-- The types seen once the search has followed every type on its stack. -/
def descend (x : DispatchIndex) : Search → List SymbolId
  | ⟨seen, []⟩ => seen
  | ⟨seen, type :: stack⟩ => x.descend ((x.derivedFrom type).foldl Search.visit ⟨seen, stack⟩)
termination_by search => x.remaining search
decreasing_by
  refine Nat.lt_of_le_of_lt (remaining_foldl_visit_le _ fun sub hsub => ?_) (Nat.lt_succ_self _)
  exact ⟨type, mem_derivedFrom.1 hsub⟩

/-- Every type derived from a type over one or more bases, without the type itself, in increasing
order. Cycles of bases are followed once. -/
def subtypesOf (x : DispatchIndex) (type : SymbolId) : List SymbolId :=
  sortedIds ((x.descend ⟨[type], [type]⟩).tail)

/-! ### Targets of a call -/

/-- What the subtypes of a slot's type hold in that slot. -/
def overrides (x : DispatchIndex) (s : Store) (owner : SlotOwner) : List SymbolId :=
  (x.subtypesOf owner.type).filterMap fun type => s.type? type >>= (·.slots[owner.slot]?)

/-- The implementations that a call may reach in a store. -/
def targets (x : DispatchIndex) (s : Store) (kind : CallKind) (callee : SymbolId) :
    DispatchTargets :=
  match kind with
  | .direct => ⟨[callee], true⟩
  | .virtual =>
    let owners := x.slotOwners callee
    ⟨sortedIds (callee :: owners.flatMap (x.overrides s)), !owners.isEmpty⟩
  | .witness =>
    let implementations := x.witnessImplementations callee
    ⟨sortedIds implementations, !implementations.isEmpty⟩

end DispatchIndex

end LinkSummary
