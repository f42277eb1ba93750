import LinkSummary.Liveness.Spread
import LinkSummary.Proofs.Dispatch
import LinkSummary.Proofs.Liveness.Raises

/-!
# Liveness is reachability

Following a call marks what it may reach, and only that; whatever is newly marked waits in the
queue. So while liveness spreads, every live function is reachable from a root, and one that no longer
waits has all its targets live. When the queue is empty, the live functions are those reachable.
-/

namespace LinkSummary

namespace Store

variable {s : Store} {id : SymbolId}

/-! ### Reachability -/

/-- A function has a call that may reach a defined function. -/
def CallsInto (s : Store) (caller target : SymbolId) : Prop :=
  s.definesFunction target = true ∧ ∃ f, s.function? caller = some f ∧
    ∃ edge ∈ f.calls, s.Dispatches edge.callee edge.kind target

/-- A function is preserved, or live already. -/
def IsRoot (s : Store) (id : SymbolId) : Prop :=
  ∃ f, s.function? id = some f ∧ (f.isPreserved = true ∨ f.isLive = true)

/-- A function is reached from a root in zero or more steps. -/
def Reachable (s : Store) (id : SymbolId) : Prop :=
  ∃ root, s.IsRoot root ∧ Relation.ReflTransGen s.CallsInto root id

lemma IsRoot.definesFunction (h : s.IsRoot id) : s.definesFunction id = true := by
  obtain ⟨f, hf, -⟩ := h
  exact definesFunction_iff.mpr ⟨f, hf⟩

end Store

namespace Spread

variable {s : Store} {p p' p'' : Spread} {caller id : SymbolId} {new new' : SymbolId → Prop}

/-! ### What following calls marks -/

/-- The defined functions with a property become live, and those that were dead wait. -/
structure Marks (new : SymbolId → Prop) (p p' : Spread) : Prop where
  raises : p.store.Raises p'.store
  live : ∀ id, p'.store.isLive id = true ↔
    p.store.isLive id = true ∨ new id ∧ p.store.definesFunction id = true
  queue : ∀ id, id ∈ p'.queue ↔
    id ∈ p.queue ∨ p'.store.isLive id = true ∧ ¬ p.store.isLive id = true

namespace Marks

lemma refl (h : ∀ id, ¬ new id) (p : Spread) : Marks new p p :=
  ⟨.refl _, fun id => by simp [h id], fun id => by simp⟩

lemma trans (h : Marks new p p') (h' : Marks new' p' p'') :
    Marks (fun id => new id ∨ new' id) p p'' := by
  refine ⟨h.raises.trans h'.raises, ?_, ?_⟩
  · intro id
    rw [h'.live, h.live, h.raises.definesFunction, or_assoc, ← or_and_right]
  · intro id
    rw [h'.queue, h.queue]
    have hmono : p.store.isLive id = true → p'.store.isLive id = true := h.raises.isLive
    have hmono' : p'.store.isLive id = true → p''.store.isLive id = true := h'.raises.isLive
    tauto

lemma congr (h : Marks new p p') (hiff : ∀ id, new id ↔ new' id) : Marks new' p p' :=
  ⟨h.raises, fun id => by rw [h.live, hiff], h.queue⟩

/-- When the first in the queue has been followed, a live function that does not wait is the one
followed, or did not wait before. -/
lemma eq_or_not_queued {queue : List SymbolId} (h : Marks new { p with queue } p')
    (hqueue : p.queue = caller :: queue) (hlive : p'.store.isLive id = true)
    (hnot : id ∉ p'.queue) : id = caller ∨ p.store.isLive id = true ∧ id ∉ p.queue := by
  have hold : p.store.isLive id = true := by
    by_contra hdead
    exact hnot ((h.queue id).mpr (.inr ⟨hlive, hdead⟩))
  by_cases heq : id = caller
  · exact .inl heq
  · refine .inr ⟨hold, ?_⟩
    rw [hqueue, List.mem_cons, not_or]
    exact ⟨heq, fun hmem => hnot ((h.queue id).mpr (.inl hmem))⟩

end Marks

lemma marks_reach (reason : LiveReason) (p : Spread) (target : SymbolId) :
    Marks (· = target) p (p.reach reason target) := by
  rw [reach]
  split
  · rename_i hdead
    rw [Store.isDead_iff_not_isLive] at hdead
    refine ⟨Store.raises_setLive _ _, fun id => Store.isLive_setLive, ?_⟩
    intro id
    rw [List.mem_append, List.mem_singleton, Store.isLive_setLive]
    constructor
    · rintro (hid | rfl)
      · exact .inl hid
      · exact .inr ⟨.inr ⟨rfl, hdead.1⟩, hdead.2⟩
    · rintro (hid | ⟨hlive | ⟨rfl, -⟩, hnot⟩)
      · exact .inl hid
      · exact absurd hlive hnot
      · exact .inr rfl
  · rename_i hdead
    rw [Store.isDead_iff_not_isLive, not_and, not_not] at hdead
    refine ⟨.refl _, ?_, fun id => by simp⟩
    intro id
    constructor
    · exact .inl
    · rintro (hlive | ⟨rfl, hdef⟩)
      · exact hlive
      · exact hdead hdef

lemma marks_foldl_reach (reason : LiveReason) (p : Spread) (targets : List SymbolId) :
    Marks (· ∈ targets) p (targets.foldl (reach reason) p) := by
  induction targets generalizing p with
  | nil => exact .refl (by simp) p
  | cons target targets ih =>
    apply ((marks_reach reason p target).trans (ih _)).congr
    intro id
    rw [List.mem_cons]

lemma Marks.of_diagnostics {diagnostics : List Diagnostic}
    (h : Marks new { p with diagnostics } p') : Marks new p p' :=
  ⟨h.raises, h.live, h.queue⟩

lemma marks_followCall (hs : s.WellFormed) (htypes : p.store.types = s.types)
    (caller : SymbolId) (edge : CallEdge) :
    Marks (s.Dispatches edge.callee edge.kind) p
      (p.followCall (DispatchIndex.ofStore s) caller edge) := by
  rw [followCall, DispatchIndex.targets_congr htypes]
  refine .of_diagnostics ((marks_foldl_reach _ _ _).congr fun id => ?_)
  exact DispatchIndex.mem_targets_ofStore hs.typesFiled

lemma marks_foldl_followCall (hs : s.WellFormed) (htypes : p.store.types = s.types)
    (caller : SymbolId) (edges : List CallEdge) :
    Marks (fun id => ∃ edge ∈ edges, s.Dispatches edge.callee edge.kind id) p
      (edges.foldl (followCall (DispatchIndex.ofStore s) caller) p) := by
  induction edges generalizing p with
  | nil => exact .refl (by simp) p
  | cons edge edges ih =>
    have hedge := marks_followCall hs htypes caller edge
    apply (hedge.trans (ih (hedge.raises.types.trans htypes))).congr
    intro id
    simp only [List.mem_cons, exists_eq_or_imp]

/-- Following a function marks what it calls into. -/
theorem marks_follow (hs : s.WellFormed) (hp : s.Raises p.store) (caller : SymbolId) :
    Marks (s.CallsInto caller) p (p.follow (DispatchIndex.ofStore s) caller) := by
  rw [follow]
  split
  · rename_i hnone
    refine .refl (fun id hid => ?_) p
    obtain ⟨-, f, hf, -⟩ := hid
    obtain ⟨f', hf', -⟩ := hp.exists_raised hf
    rw [hnone] at hf'
    cases hf'
  · rename_i f' hf'
    have hmarks := marks_foldl_followCall hs hp.types caller f'.calls
    refine ⟨hmarks.raises, ?_, hmarks.queue⟩
    intro id
    rw [hmarks.live, hp.definesFunction]
    apply or_congr_right
    obtain ⟨f, hf, hor⟩ := hp.exists_function hf'
    have hcalls : f'.calls = f.calls := by
      rcases hor with rfl | rfl
      · rfl
      · rfl
    constructor
    · rintro ⟨hedge, hdef⟩
      exact ⟨⟨hdef, f, hf, hcalls ▸ hedge⟩, hdef⟩
    · rintro ⟨⟨-, g, hg, hedge⟩, hdef⟩
      rw [hf, Option.some.injEq] at hg
      exact ⟨hcalls ▸ hg ▸ hedge, hdef⟩

/-! ### The invariant of the spread -/

/-- How far liveness has spread over a store. -/
structure Tracks (s : Store) (p : Spread) : Prop where
  raises : s.Raises p.store
  roots : ∀ id, s.IsRoot id → p.store.isLive id = true
  reachable : ∀ id, p.store.isLive id = true → s.Reachable id
  queued : ∀ id ∈ p.queue, p.store.isLive id = true
  followed : ∀ id, p.store.isLive id = true → id ∉ p.queue →
    ∀ target, s.CallsInto id target → p.store.isLive target = true

/-- One turn of the loop keeps the invariant. -/
lemma Tracks.follow (hs : s.WellFormed) (h : Tracks s p) {queue : List SymbolId}
    (hqueue : p.queue = caller :: queue) :
    Tracks s (({ p with queue } : Spread).follow (DispatchIndex.ofStore s) caller) := by
  have hmarks := marks_follow hs (p := { p with queue }) h.raises caller
  generalize ({ p with queue } : Spread).follow (DispatchIndex.ofStore s) caller = p' at hmarks
  have hcaller : p.store.isLive caller = true :=
    h.queued caller (hqueue ▸ List.mem_cons_self)
  refine ⟨h.raises.trans hmarks.raises, fun id hid => hmarks.raises.isLive (h.roots id hid), ?_,
    ?_, ?_⟩
  · intro id hid
    rcases (hmarks.live id).mp hid with hlive | ⟨hcalls, -⟩
    · exact h.reachable id hlive
    · obtain ⟨root, hroot, hpath⟩ := h.reachable caller hcaller
      exact ⟨root, hroot, hpath.tail hcalls⟩
  · intro id hid
    rcases (hmarks.queue id).mp hid with hold | ⟨hlive, -⟩
    · exact hmarks.raises.isLive (h.queued id (hqueue ▸ List.mem_cons_of_mem _ hold))
    · exact hlive
  · intro id hid hnot target htarget
    rcases hmarks.eq_or_not_queued hqueue hid hnot with rfl | ⟨hold, hnot⟩
    · have hdef : p.store.definesFunction target = true :=
        (h.raises.definesFunction target).trans htarget.1
      exact (hmarks.live target).mpr (.inr ⟨htarget, hdef⟩)
    · exact hmarks.raises.isLive (h.followed id hold hnot target htarget)

lemma Tracks.run (hs : s.WellFormed) (h : Tracks s p) :
    Tracks s (p.run (DispatchIndex.ofStore s)) ∧ (p.run (DispatchIndex.ofStore s)).queue = [] := by
  fun_induction Spread.run (DispatchIndex.ofStore s) p with
  | case1 p hqueue => exact ⟨h, hqueue⟩
  | case2 p caller queue hqueue ih => exact ih (h.follow hs hqueue)

/-! ### Invariants of reaching -/

/-- What reaching a target of a function's calls keeps, following the function keeps. -/
lemma follow_induction (hs : s.WellFormed) {P : Spread → Prop}
    (hdiagnostics : ∀ p diagnostics, P p → P { p with diagnostics })
    (hreach : ∀ p f edge target, s.function? caller = some f → edge ∈ f.calls →
      s.Dispatches edge.callee edge.kind target → P p →
        P (p.reach (reasonOf caller edge.kind) target))
    (hp : s.Raises p.store) (h : P p) : P (p.follow (DispatchIndex.ofStore s) caller) := by
  rw [follow]
  split
  · exact h
  · rename_i f' hf'
    obtain ⟨f, hf, hraised⟩ := hp.exists_function hf'
    have hcalls : f'.calls = f.calls := by
      rcases hraised with rfl | rfl
      · rfl
      · rfl
    rw [hcalls]
    have hedges : ∀ (edges : List CallEdge), edges ⊆ f.calls → ∀ p, s.Raises p.store → P p →
        P (edges.foldl (followCall (DispatchIndex.ofStore s) caller) p) := by
      intro edges
      induction edges with
      | nil => exact fun _ p _ h => h
      | cons edge edges ih =>
        intro hsubset p hp h
        rw [List.cons_subset] at hsubset
        refine ih hsubset.2 _ (hp.trans (marks_followCall hs hp.types caller edge).raises) ?_
        rw [followCall, DispatchIndex.targets_congr hp.types]
        refine List.foldlRecOn (motive := P) _ _ (hdiagnostics p _ h) fun p hp target htarget => ?_
        exact hreach p f edge target hf hsubset.1
          ((DispatchIndex.mem_targets_ofStore hs.typesFiled).mp htarget) hp
    exact hedges f.calls (List.Subset.refl _) p hp h

/-- What one turn of the loop keeps, the loop keeps. -/
lemma run_induction (hs : s.WellFormed) {P : Spread → Prop}
    (hturn : ∀ p caller queue, Tracks s p → p.queue = caller :: queue → P p →
      P (({ p with queue } : Spread).follow (DispatchIndex.ofStore s) caller))
    (htracks : Tracks s p) (h : P p) : P (p.run (DispatchIndex.ofStore s)) := by
  fun_induction Spread.run (DispatchIndex.ofStore s) p with
  | case1 p hqueue => exact h
  | case2 p caller queue hqueue ih =>
    exact ih (htracks.follow hs hqueue) (hturn p caller queue htracks hqueue h)

/-! ### The roots -/

lemma addRoot_store (p : Spread) (f : FunctionSummary) :
    (p.addRoot f).store = p.store.setLive f.id := rfl

lemma foldl_addRoot (fs : List FunctionSummary) (p : Spread) :
    p.store.Raises (fs.foldl addRoot p).store ∧
      (∀ id, (fs.foldl addRoot p).store.isLive id = true ↔ p.store.isLive id = true ∨
        id ∈ fs.map (·.id) ∧ p.store.definesFunction id = true) ∧
      (fs.foldl addRoot p).queue = p.queue ++ fs.map (·.id) := by
  induction fs generalizing p with
  | nil => simp [Store.Raises.refl]
  | cons f fs ih =>
    obtain ⟨hraises, hlive, hqueue⟩ := ih (p.addRoot f)
    have hfirst := Store.raises_setLive p.store f.id
    refine ⟨hfirst.trans hraises, ?_, ?_⟩
    · intro id
      rw [List.foldl_cons, hlive, addRoot_store, Store.isLive_setLive, hfirst.definesFunction,
        List.map_cons, List.mem_cons, or_assoc, ← or_and_right]
    · rw [List.foldl_cons, hqueue, List.map_cons, addRoot, List.append_assoc, List.singleton_append]

lemma mem_roots (hs : s.WellFormed) : id ∈ (roots s).map (·.id) ↔ s.IsRoot id := by
  simp only [roots, List.mem_map, List.mem_filter, IdMap.mem_values_iff, Bool.or_eq_true]
  constructor
  · rintro ⟨f, ⟨⟨key, hf⟩, hroot⟩, rfl⟩
    exact ⟨f, (hs.functions hf).id_eq ▸ hf, hroot⟩
  · rintro ⟨f, hf, hroot⟩
    exact ⟨f, ⟨⟨id, hf⟩, hroot⟩, (hs.functions hf).id_eq⟩

/-- At the start the roots are live, and no other function. -/
lemma isLive_start_iff (hs : s.WellFormed) (trace : LivenessTrace)
    (diagnostics : List Diagnostic) :
    (start s trace diagnostics).store.isLive id = true ↔ s.IsRoot id := by
  obtain ⟨-, hlive, -⟩ := foldl_addRoot (roots s) { store := s, trace, diagnostics }
  rw [start, hlive, mem_roots hs]
  constructor
  · rintro (hid | ⟨hroot, -⟩)
    · obtain ⟨f, hf, hflive⟩ := Store.isLive_iff.mp hid
      exact ⟨f, hf, .inr hflive⟩
    · exact hroot
  · exact fun hroot => .inr ⟨hroot, hroot.definesFunction⟩

lemma tracks_start (hs : s.WellFormed) (trace : LivenessTrace) (diagnostics : List Diagnostic) :
    Tracks s (start s trace diagnostics) := by
  obtain ⟨hraises, -, hqueue⟩ := foldl_addRoot (roots s) { store := s, trace, diagnostics }
  have hroots : ∀ id, (start s trace diagnostics).store.isLive id = true ↔ s.IsRoot id :=
    fun _ => isLive_start_iff hs trace diagnostics
  have hmem : ∀ id, id ∈ (start s trace diagnostics).queue ↔ s.IsRoot id := by
    intro id
    rw [start, hqueue, List.nil_append, mem_roots hs]
  refine ⟨hraises, fun id => (hroots id).mpr, fun id hid => ⟨id, (hroots id).mp hid, .refl⟩,
    fun id hid => (hroots id).mpr ((hmem id).mp hid), ?_⟩
  intro id hid hnot
  exact absurd ((hmem id).mpr ((hroots id).mp hid)) hnot

/-! ### The result -/

lemma raises_ofStore (hs : s.WellFormed) (trace : LivenessTrace) (diagnostics : List Diagnostic) :
    s.Raises (ofStore s trace diagnostics).store :=
  ((tracks_start hs trace diagnostics).run hs).1.raises.trans
    (Store.raises_markLivenessComputed _)

/-- Over a well-formed store, spreading liveness marks what is reachable from the roots. -/
theorem isLive_ofStore_iff (hs : s.WellFormed) (trace : LivenessTrace)
    (diagnostics : List Diagnostic) :
    (ofStore s trace diagnostics).store.isLive id = true ↔ s.Reachable id := by
  obtain ⟨htracks, hqueue⟩ := (tracks_start hs trace diagnostics).run hs
  constructor
  · exact htracks.reachable id
  · rintro ⟨root, hroot, hpath⟩
    induction hpath with
    | refl => exact htracks.roots root hroot
    | @tail caller target _ hcalls ih =>
      exact htracks.followed caller ih (hqueue ▸ List.not_mem_nil) target hcalls

end Spread

end LinkSummary
