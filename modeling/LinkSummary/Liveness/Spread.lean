import LinkSummary.Dispatch
import LinkSummary.Liveness.Trace
import LinkSummary.Merge.Diagnostic

/-!
# The spread of liveness

Liveness spreads from the preserved functions, and from those live already, along the calls of live
functions. The functions whose calls are still to be followed wait in a queue. A function joins the
queue only when its flag is set, so every live function is followed once, and those fewest calls
away from a root come first.
-/

namespace LinkSummary

namespace Store

/-- The number of functions that are not live. -/
def deadCount (s : Store) : Nat := s.functions.entries.countP fun e => !e.2.isLive

theorem countP_modifyEntry {id : SymbolId} {es : List (SymbolId × FunctionSummary)}
    {f : FunctionSummary} (h : IdMap.valueAt id es = some f) (hdead : f.isLive = false) :
    (IdMap.modifyEntry id (·.markLive) es).countP (fun e => !e.2.isLive) + 1 =
      es.countP fun e => !e.2.isLive := by
  induction es with
  | nil => cases h
  | cons e es ih =>
    simp only [IdMap.valueAt] at h
    simp only [IdMap.modifyEntry]
    split at h
    · rename_i he
      cases h
      simp [he, hdead]
    · rename_i he
      simp only [he, if_false, List.countP_cons]
      have := ih h
      omega

/-- Marking a dead function leaves one dead function fewer. -/
theorem deadCount_setLive {s : Store} {id : SymbolId} (h : s.isDead id = true) :
    (s.setLive id).deadCount + 1 = s.deadCount := by
  rw [setLive, if_pos h]
  simp only [isDead, function?, IdMap.get?] at h
  cases hf : IdMap.valueAt id s.functions.entries with
  | none => simp [hf] at h
  | some f => exact countP_modifyEntry hf (by simpa [hf] using h)

end Store

/-- Liveness on its way. -/
structure Spread where
  store : Store
  trace : LivenessTrace
  diagnostics : List Diagnostic
  /-- The live functions whose calls are still to be followed. -/
  queue : List SymbolId := []
  marked : Nat := 0
deriving DecidableEq

namespace Spread

/-- Reach a function: if it is dead it is marked, and waits in the queue. -/
def reach (reason : LiveReason) (p : Spread) (function : SymbolId) : Spread :=
  if p.store.isDead function then
    { p with
      store := p.store.setLive function
      trace := p.trace.record function reason
      queue := p.queue ++ [function]
      marked := p.marked + 1 }
  else p

/-- Begin with a root, which waits in the queue whether it was marked or live already. -/
def addRoot (p : Spread) (f : FunctionSummary) : Spread :=
  { p with
    store := p.store.setLive f.id
    trace := p.trace.record f.id (if f.isPreserved then .preserved else .liveInInput)
    queue := p.queue ++ [f.id]
    marked := p.marked + (p.store.isDead f.id).toNat }

/-- The functions from which liveness spreads. -/
def roots (s : Store) : List FunctionSummary :=
  s.functions.values.filter fun f => f.isPreserved || f.isLive

def start (s : Store) (trace : LivenessTrace) (diagnostics : List Diagnostic) : Spread :=
  (roots s).foldl addRoot { store := s, trace, diagnostics }

def reasonOf (caller : SymbolId) : CallKind → LiveReason
  | .direct => .staticRef caller
  | .virtual | .witness => .indirectRef caller

/-- Follow a call: every function that it may reach is reached. A dynamic call that no table entry
matches is reported. -/
def followCall (x : DispatchIndex) (caller : SymbolId) (p : Spread) (edge : CallEdge) : Spread :=
  let targets := x.targets p.store edge.kind edge.callee
  let diagnostics :=
    if targets.resolved then p.diagnostics
    else Diagnostic.addTo p.diagnostics (.unresolvedEdge (p.store.shownName caller)
      (p.store.shownName edge.callee) edge.kind .noDispatchEntry)
  targets.implementations.foldl (reach (reasonOf caller edge.kind)) { p with diagnostics }

def follow (x : DispatchIndex) (p : Spread) (caller : SymbolId) : Spread :=
  match p.store.function? caller with
  | none => p
  | some f => f.calls.foldl (followCall x caller) p

/-! ### The queue runs empty -/

/-- The functions that wait or may still come to wait. -/
def pending (p : Spread) : Nat := p.store.deadCount + p.queue.length

@[simp] theorem pending_reach (reason : LiveReason) (p : Spread) (function : SymbolId) :
    (p.reach reason function).pending = p.pending := by
  simp only [reach]
  split
  · rename_i h
    have := Store.deadCount_setLive h
    simp only [pending, List.length_append, List.length_singleton]
    omega
  · rfl

theorem pending_foldl_reach (reason : LiveReason) (p : Spread) (functions : List SymbolId) :
    (functions.foldl (reach reason) p).pending = p.pending := by
  induction functions generalizing p with
  | nil => rfl
  | cons function functions ih => rw [List.foldl_cons, ih, pending_reach]

@[simp] theorem pending_followCall (x : DispatchIndex) (caller : SymbolId) (p : Spread)
    (edge : CallEdge) : (p.followCall x caller edge).pending = p.pending := by
  rw [followCall, pending_foldl_reach]
  rfl

@[simp] theorem pending_follow (x : DispatchIndex) (p : Spread) (caller : SymbolId) :
    (p.follow x caller).pending = p.pending := by
  simp only [follow]
  split
  · rfl
  · rename_i f _
    generalize f.calls = edges
    have : ∀ q : Spread, (edges.foldl (followCall x caller) q).pending = q.pending := by
      induction edges with
      | nil => exact fun _ => rfl
      | cons edge edges ih => exact fun q => by rw [List.foldl_cons, ih, pending_followCall]
    exact this p

/-- Follow the calls of the functions in the queue, in turn, until none waits. -/
def run (x : DispatchIndex) (p : Spread) : Spread :=
  match _ : p.queue with
  | [] => p
  | caller :: queue => run x (follow x { p with queue } caller)
termination_by p.pending
decreasing_by
  rw [pending_follow]
  simp [pending, *]

/-- Spread liveness over a store: mark every function reachable from a root. -/
def ofStore (s : Store) (trace : LivenessTrace) (diagnostics : List Diagnostic) : Spread :=
  let p := (start s trace diagnostics).run (.ofStore s)
  { p with store := p.store.markLivenessComputed }

end Spread

end LinkSummary
