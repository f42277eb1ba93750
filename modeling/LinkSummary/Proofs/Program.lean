import LinkSummary.FunctionSummary
import Mathlib.Data.Option.Basic
import Mathlib.Logic.Relation

/-!
# Programs

A program is what a store says of functions and types, apart from what stands for them: the ids of
one store, or names that several stores have in common. Dispatch and reachability are relations on
the keys of a program, and a map of keys under which a program is found in another one keeps them.
-/

namespace LinkSummary

/-- A call that names its callee by a key. -/
structure Program.Call (κ : Type) where
  callee : κ
  kind : CallKind
  preserved : Bool := false
deriving DecidableEq

/-- A function whose calls name keys. -/
structure Program.Function (κ : Type) where
  flags : FunctionFlags
  debugName : Option String := none
  calls : List (Program.Call κ) := []
deriving DecidableEq

/-- The dispatch tables of a type. -/
structure Program.Tables (κ : Type) where
  base : Option κ := none
  slots : List κ := []
  witnesses : κ → Option κ := fun _ => none

/-- Functions and types by key. -/
@[ext]
structure Program (κ : Type) where
  functions : κ → Option (Program.Function κ)
  types : κ → Option (Program.Tables κ)

namespace Program

variable {κ κ' : Type} {p : Program κ} {q : Program κ'} {g : κ → κ'}

def Call.map (g : κ → κ') (c : Call κ) : Call κ' := { c with callee := g c.callee }

@[simp] lemma Call.map_id (c : Call κ) : c.map id = c := rfl

/-! ### Dispatch and reachability -/

def DerivesFrom (p : Program κ) (sub base : κ) : Prop :=
  ∃ t, p.types sub = some t ∧ t.base = some base

/-- A type leads to another over one or more bases. -/
def SubtypeOf (p : Program κ) : κ → κ → Prop :=
  Relation.TransGen p.DerivesFrom

def HoldsSlot (p : Program κ) (type : κ) (slot : Nat) (implementation : κ) : Prop :=
  ∃ t, p.types type = some t ∧ t.slots[slot]? = some implementation

def HoldsWitness (p : Program κ) (type requirement implementation : κ) : Prop :=
  ∃ t, p.types type = some t ∧ t.witnesses requirement = some implementation

/-- What a call of a kind may reach, given the key that it names. -/
inductive Dispatches (p : Program κ) (callee : κ) : CallKind → κ → Prop
  | direct : Dispatches p callee .direct callee
  | named : Dispatches p callee .virtual callee
  | override {type sub : κ} {slot : Nat} {implementation : κ} :
    p.HoldsSlot type slot callee → p.SubtypeOf sub type → p.HoldsSlot sub slot implementation →
      Dispatches p callee .virtual implementation
  | conformance {type implementation : κ} :
    p.HoldsWitness type callee implementation → Dispatches p callee .witness implementation

/-- A function has a call that may reach a function of the program. -/
def CallsInto (p : Program κ) (caller target : κ) : Prop :=
  (p.functions target).isSome ∧ ∃ f, p.functions caller = some f ∧
    ∃ call ∈ f.calls, p.Dispatches call.callee call.kind target

/-- A function is preserved, or live already. -/
def IsRoot (p : Program κ) (k : κ) : Prop :=
  ∃ f, p.functions k = some f ∧ (f.flags.preserved = true ∨ f.flags.live = true)

/-- A function is reached from a root in zero or more steps. -/
def Reachable (p : Program κ) (k : κ) : Prop :=
  ∃ root, p.IsRoot root ∧ Relation.ReflTransGen p.CallsInto root k

lemma IsRoot.reachable {k : κ} (h : p.IsRoot k) : p.Reachable k :=
  ⟨k, h, .refl⟩

/-- Some dispatch table has an entry for a call, if the call needs one. -/
def Resolves (p : Program κ) (call : Call κ) : Prop :=
  match call.kind with
  | .direct => True
  | .virtual => ∃ type slot, p.HoldsSlot type slot call.callee
  | .witness => ∃ type implementation, p.HoldsWitness type call.callee implementation

/-! ### Programs within programs -/

/-- Every function and type of a program is found in another one, under a map of keys: functions
have no fewer calls there, and types no fewer entries in their tables. -/
structure Embeds (g : κ → κ') (p : Program κ) (q : Program κ') : Prop where
  functions : ∀ {k f}, p.functions k = some f →
    ∃ f', q.functions (g k) = some f' ∧ ∀ call ∈ f.calls, call.map g ∈ f'.calls
  types : ∀ {k t}, p.types k = some t → ∃ t', q.types (g k) = some t' ∧
    t'.base = t.base.map g ∧ t.slots.map g <+: t'.slots ∧
      ∀ r x, t.witnesses r = some x → t'.witnesses (g r) = some (g x)

namespace Embeds

variable {k type sub base caller target implementation requirement : κ} {slot : Nat}

lemma derivesFrom (h : Embeds g p q) (hsub : p.DerivesFrom sub base) :
    q.DerivesFrom (g sub) (g base) := by
  obtain ⟨t, ht, hbase⟩ := hsub
  obtain ⟨t', ht', hbase', -⟩ := h.types ht
  exact ⟨t', ht', by rw [hbase', hbase, Option.map_some]⟩

lemma subtypeOf (h : Embeds g p q) (hsub : p.SubtypeOf sub type) :
    q.SubtypeOf (g sub) (g type) :=
  Relation.TransGen.lift g (fun _ _ => h.derivesFrom) _ _ hsub

lemma holdsSlot (h : Embeds g p q) (hslot : p.HoldsSlot type slot implementation) :
    q.HoldsSlot (g type) slot (g implementation) := by
  obtain ⟨t, ht, himplementation⟩ := hslot
  obtain ⟨t', ht', -, ⟨rest, hrest⟩, -⟩ := h.types ht
  have hmapped : (t.slots.map g)[slot]? = some (g implementation) := by
    simp [himplementation]
  have hlt := (List.getElem?_eq_some_iff.mp hmapped).1
  exact ⟨t', ht', by rw [← hrest, List.getElem?_append_left hlt, hmapped]⟩

lemma holdsWitness (h : Embeds g p q) (hwitness : p.HoldsWitness type requirement implementation) :
    q.HoldsWitness (g type) (g requirement) (g implementation) := by
  obtain ⟨t, ht, himplementation⟩ := hwitness
  obtain ⟨t', ht', -, -, hwitnesses⟩ := h.types ht
  exact ⟨t', ht', hwitnesses _ _ himplementation⟩

lemma dispatches (h : Embeds g p q) {callee : κ} {kind : CallKind}
    (hcall : p.Dispatches callee kind target) : q.Dispatches (g callee) kind (g target) := by
  cases hcall with
  | direct => exact .direct
  | named => exact .named
  | override hcallee hsub hslot =>
    exact .override (h.holdsSlot hcallee) (h.subtypeOf hsub) (h.holdsSlot hslot)
  | conformance hwitness => exact .conformance (h.holdsWitness hwitness)

lemma resolves (h : Embeds g p q) {call : Call κ} (hcall : p.Resolves call) :
    q.Resolves (call.map g) := by
  obtain ⟨callee, kind, preserved⟩ := call
  cases kind with
  | direct => trivial
  | virtual =>
    obtain ⟨type, slot, hslot⟩ := hcall
    exact ⟨g type, slot, h.holdsSlot hslot⟩
  | witness =>
    obtain ⟨type, implementation, hwitness⟩ := hcall
    exact ⟨g type, g implementation, h.holdsWitness hwitness⟩

lemma isSome_functions (h : Embeds g p q) (hk : (p.functions k).isSome) :
    (q.functions (g k)).isSome := by
  obtain ⟨f, hf⟩ := Option.isSome_iff_exists.mp hk
  obtain ⟨f', hf', -⟩ := h.functions hf
  exact Option.isSome_iff_exists.mpr ⟨f', hf'⟩

lemma callsInto (h : Embeds g p q) (hcalls : p.CallsInto caller target) :
    q.CallsInto (g caller) (g target) := by
  obtain ⟨hdef, f, hf, call, hcall, hdispatch⟩ := hcalls
  obtain ⟨f', hf', hkept⟩ := h.functions hf
  exact ⟨h.isSome_functions hdef, f', hf', call.map g, hkept call hcall, h.dispatches hdispatch⟩

/-- What is reachable stays so in a program that contains the first, if its roots do. -/
theorem reachable (h : Embeds g p q) (hroots : ∀ k, p.IsRoot k → q.Reachable (g k))
    (hk : p.Reachable k) : q.Reachable (g k) := by
  obtain ⟨root, hroot, hpath⟩ := hk
  obtain ⟨root', hroot', hpath'⟩ := hroots root hroot
  have hmapped : Relation.ReflTransGen q.CallsInto (g root) (g k) :=
    Relation.ReflTransGen.lift g (fun _ _ => h.callsInto) _ _ hpath
  exact ⟨root', hroot', hpath'.trans hmapped⟩

end Embeds

/-! ### Spreading liveness -/

def Function.withLive (live : Bool) (f : Function κ) : Function κ :=
  { f with flags := { f.flags with live } }

open Classical in
/-- The program in which exactly the reachable functions are live. -/
noncomputable def spread (p : Program κ) : Program κ :=
  { p with functions := fun k => (p.functions k).map (Function.withLive (decide (p.Reachable k))) }

lemma functions_spread_of_some {k : κ} {f : Function κ} (hf : p.functions k = some f) :
    ∃ live, p.spread.functions k = some (f.withLive live) :=
  ⟨_, congrArg (Option.map _) hf⟩

lemma functions_spread_eq_none_iff {k : κ} :
    p.spread.functions k = none ↔ p.functions k = none :=
  Option.map_eq_none_iff

lemma IsRoot.spread {k : κ} (h : p.IsRoot k) : p.spread.IsRoot k := by
  have hreach := h.reachable
  obtain ⟨f, hf, -⟩ := h
  refine ⟨_, congrArg (Option.map _) hf, .inr ?_⟩
  simpa [Function.withLive] using hreach

/-- A function that has become live is reachable, and so is one that is preserved. -/
lemma reachable_of_isRoot_spread {k : κ} (h : p.spread.IsRoot k) : p.Reachable k := by
  obtain ⟨F, hF, hroot⟩ := h
  obtain ⟨f, hf, rfl⟩ := Option.map_eq_some_iff.mp hF
  rcases hroot with hpreserved | hlive
  · exact IsRoot.reachable ⟨f, hf, .inl hpreserved⟩
  · simpa [Function.withLive] using hlive

end Program

end LinkSummary
