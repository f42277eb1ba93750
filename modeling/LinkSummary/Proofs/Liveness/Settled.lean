import LinkSummary.Proofs.Liveness.Named
import LinkSummary.Proofs.Liveness.Trace

/-!
# Spreading liveness again

Every function that the spread marks was dead before, so the number that it tells is that of the
functions which became live. Afterwards the live functions are noted, call into live functions only,
and their calls without an entry are reported. Where this is so, spreading liveness changes nothing.
-/

namespace LinkSummary

/-! ### The functions that become live -/

namespace Store

variable {s s' s'' : Store} {id caller target : SymbolId} {d : Diagnostic}

/-- The functions of a store that are live in another one only, in id order. -/
def newlyLive (s s' : Store) : List SymbolId :=
  s.functions.keys.filter fun id => s.isDead id && s'.isLive id

lemma mem_newlyLive : id ∈ s.newlyLive s' ↔ s.isDead id = true ∧ s'.isLive id = true := by
  rw [newlyLive, List.mem_filter, Bool.and_eq_true, IdMap.mem_keys_iff, and_iff_right_iff_imp]
  rintro ⟨hdead, -⟩
  obtain ⟨f, hf, -⟩ := isDead_iff.mp hdead
  exact ⟨f, hf⟩

lemma nodup_newlyLive (s s' : Store) : (s.newlyLive s').Nodup :=
  s.functions.keys_nodup.filter _

lemma deadCount_eq (s : Store) : s.deadCount = s.functions.keys.countP s.isDead := by
  rw [IdMap.countP_keys (q := fun f => !f.isLive), deadCount, IdMap.values, List.countP_map]
  · rfl
  · intro id f hf
    rw [isDead, function?, hf, Option.any_some]

/-- Of the dead functions of a store some become live, and the others stay dead. -/
lemma Raises.length_newlyLive (h : s.Raises s') :
    (s.newlyLive s').length + s'.deadCount = s.deadCount := by
  have hkeys : s'.functions.keys = s.functions.keys := IdMap.keys_congr h.definesFunction
  rw [deadCount_eq, deadCount_eq, hkeys, newlyLive, ← List.countP_eq_length_filter]
  -- function by function: what is dead at first is either newly live or dead in the end
  generalize s.functions.keys = ids
  induction ids with
  | nil => rfl
  | cons id ids ih =>
    have hdead : s'.isDead id = true ↔ s.isDead id = true ∧ ¬ s'.isLive id = true := by
      rw [isDead_iff_not_isLive, isDead_iff_not_isLive, h.definesFunction]
      have hmono : s.isLive id = true → s'.isLive id = true := h.isLive
      tauto
    rw [List.countP_cons, List.countP_cons, List.countP_cons]
    cases hs : s.isDead id <;> cases hs' : s'.isLive id <;> simp_all <;> omega

/-! ### Calls in a store with more live functions -/

/-- A function has a call that no table has an entry for, which makes a report. -/
def Misses (s : Store) (caller : SymbolId) (d : Diagnostic) : Prop :=
  ∃ f, s.function? caller = some f ∧ ∃ edge ∈ f.calls, ¬ s.program.Resolves (idCall edge) ∧
    d = .unresolvedEdge (s.shownName caller) (s.shownName edge.callee) edge.kind .noDispatchEntry

namespace Raises

lemma ofStore_eq (h : s.Raises s') : DispatchIndex.ofStore s' = DispatchIndex.ofStore s := by
  simp only [DispatchIndex.ofStore, h.types]

lemma targets_eq (h : s.Raises s') (kind : CallKind) (callee : SymbolId) :
    (DispatchIndex.ofStore s').targets s' kind callee =
      (DispatchIndex.ofStore s).targets s kind callee := by
  rw [h.ofStore_eq, DispatchIndex.targets_congr h.types]

lemma dispatches_iff (h : s.Raises s') (hs : s.WellFormed) {kind : CallKind} {callee : SymbolId} :
    s'.Dispatches callee kind target ↔ s.Dispatches callee kind target := by
  rw [← DispatchIndex.mem_targets_ofStore hs.typesFiled,
    ← DispatchIndex.mem_targets_ofStore (h.wellFormed hs).typesFiled, h.targets_eq]

/-- A function is in both stores, with the same calls, or in none. -/
lemma exists_calls_iff (h : s.Raises s') {P : List CallEdge → Prop} :
    (∃ f, s'.function? caller = some f ∧ P f.calls) ↔
      ∃ f, s.function? caller = some f ∧ P f.calls := by
  constructor
  · rintro ⟨f', hf', hcalls⟩
    obtain ⟨f, hf, rfl | rfl⟩ := h.exists_function hf'
    · exact ⟨f', hf, hcalls⟩
    · exact ⟨f, hf, hcalls⟩
  · rintro ⟨f, hf, hcalls⟩
    obtain ⟨f', hf', rfl | rfl⟩ := h.exists_raised hf
    · exact ⟨f', hf', hcalls⟩
    · exact ⟨f.markLive, hf', hcalls⟩

lemma callsInto_iff (h : s.Raises s') (hs : s.WellFormed) :
    s'.CallsInto caller target ↔ s.CallsInto caller target := by
  simp only [CallsInto, h.definesFunction, h.dispatches_iff hs]
  exact and_congr_right fun _ => h.exists_calls_iff (P := fun calls =>
    ∃ edge ∈ calls, s.Dispatches edge.callee edge.kind target)

lemma misses_iff (h : s.Raises s') (hs : s.WellFormed) :
    s'.Misses caller d ↔ s.Misses caller d := by
  have hresolves : ∀ edge,
      s'.program.Resolves (idCall edge) ↔ s.program.Resolves (idCall edge) := by
    intro edge
    rw [← Spread.resolved_targets_ofStore hs s, h.ofStore_eq.symm,
      Spread.resolved_targets_ofStore (h.wellFormed hs)]
  simp only [Misses, hresolves, h.shownName]
  exact h.exists_calls_iff (P := fun calls => ∃ edge ∈ calls,
    ¬ s.program.Resolves (idCall edge) ∧ d = .unresolvedEdge (s.shownName caller)
      (s.shownName edge.callee) edge.kind .noDispatchEntry)

lemma isRoot_iff (h : s.Raises s') : s'.IsRoot id ↔ s.IsRoot id ∨ s'.isLive id = true := by
  constructor
  · rintro ⟨f', hf', hpreserved | hlive⟩
    · obtain ⟨f, hf, rfl | rfl⟩ := h.exists_function hf'
      · exact .inl ⟨f', hf, .inl hpreserved⟩
      · exact .inl ⟨f, hf, .inl hpreserved⟩
    · exact .inr (isLive_iff.mpr ⟨f', hf', hlive⟩)
  · rintro (⟨f, hf, hroot⟩ | hlive)
    · obtain ⟨f', hf', rfl | rfl⟩ := h.exists_raised hf
      · exact ⟨f', hf', hroot⟩
      · exact ⟨f.markLive, hf', .inr rfl⟩
    · obtain ⟨f', hf', hlive⟩ := isLive_iff.mp hlive
      exact ⟨f', hf', .inr hlive⟩

end Raises

end Store

namespace Spread

variable {s : Store} {p : Spread} {caller id : SymbolId}

/-! ### The number of functions marked -/

lemma marked_reach (reason : LiveReason) (p : Spread) (target : SymbolId) :
    (p.reach reason target).marked + (p.reach reason target).store.deadCount =
      p.marked + p.store.deadCount := by
  rw [reach]
  split
  · rename_i hdead
    have hcount := Store.deadCount_setLive hdead
    dsimp only
    omega
  · rfl

lemma marked_addRoot (p : Spread) (f : FunctionSummary) :
    (p.addRoot f).marked + (p.addRoot f).store.deadCount = p.marked + p.store.deadCount := by
  rw [addRoot]
  dsimp only
  cases hdead : p.store.isDead f.id with
  | true =>
    have hcount := Store.deadCount_setLive hdead
    rw [Bool.toNat_true]
    omega
  | false =>
    rw [Store.setLive, hdead]
    rfl

lemma marked_start (s : Store) (trace : LivenessTrace) (diagnostics : List Diagnostic) :
    (start s trace diagnostics).marked + (start s trace diagnostics).store.deadCount =
      s.deadCount := by
  have hroots : ∀ (fs : List FunctionSummary) (p : Spread),
      (fs.foldl addRoot p).marked + (fs.foldl addRoot p).store.deadCount =
        p.marked + p.store.deadCount := by
    intro fs
    induction fs with
    | nil => exact fun p => rfl
    | cons f fs ih => exact fun p => (ih (p.addRoot f)).trans (marked_addRoot p f)
  exact (hroots _ _).trans (Nat.zero_add _)

/-- The number that the spread tells is that of the functions which it made live. -/
theorem marked_ofStore (hs : s.WellFormed) (trace : LivenessTrace)
    (diagnostics : List Diagnostic) : (ofStore s trace diagnostics).marked =
      (s.newlyLive (ofStore s trace diagnostics).store).length := by
  have hcount : (ofStore s trace diagnostics).marked +
      (ofStore s trace diagnostics).store.deadCount = s.deadCount := by
    refine run_induction hs (P := fun p => p.marked + p.store.deadCount = s.deadCount) ?_
      (tracks_start hs trace diagnostics) (marked_start s trace diagnostics)
    intro p caller queue htracks _ h
    refine follow_induction hs (P := fun p => p.marked + p.store.deadCount = s.deadCount)
      (fun _ _ h => h) ?_ htracks.raises h
    intro p f edge target _ _ _ h
    exact (marked_reach _ p target).trans h
  have hsplit := (raises_ofStore hs trace diagnostics).length_newlyLive
  omega

/-! ### Where nothing is left to do -/

/-- Liveness has spread over a store, with a trace and some reports. -/
structure Settled (s : Store) (trace : LivenessTrace) (diagnostics : List Diagnostic) : Prop where
  computed : s.livenessComputed = true
  roots : ∀ id, s.IsRoot id → s.isLive id = true
  closed : ∀ caller target, s.isLive caller = true → s.CallsInto caller target →
    s.isLive target = true
  noted : ∀ id, s.isLive id = true → (trace.reason? id).isSome
  reported : ∀ caller d, s.isLive caller = true → s.Misses caller d → d ∈ diagnostics

/-- Every live function has a reason. -/
def Noted (p : Spread) : Prop :=
  ∀ id, p.store.isLive id = true → (p.trace.reason? id).isSome

lemma Noted.reach (h : p.Noted) (reason : LiveReason) (target : SymbolId) :
    (p.reach reason target).Noted := by
  rw [Spread.reach]
  split
  · intro id hid
    rw [LivenessTrace.isSome_reason?_record]
    rcases Store.isLive_setLive.mp hid with hold | ⟨rfl, -⟩
    · rw [h id hold, Bool.or_true]
    · rw [decide_eq_true rfl, Bool.true_or]
  · exact h

lemma isSome_reason?_foldl_addRoot (fs : List FunctionSummary) (p : Spread) :
    ((fs.foldl addRoot p).trace.reason? id).isSome =
      (decide (id ∈ fs.map (·.id)) || (p.trace.reason? id).isSome) := by
  induction fs generalizing p with
  | nil => simp
  | cons f fs ih =>
    rw [List.foldl_cons, ih, addRoot, LivenessTrace.isSome_reason?_record, ← Bool.or_assoc,
      List.map_cons]
    congr 1
    by_cases heq : id = f.id <;> simp [heq]

lemma noted_start (hs : s.WellFormed) (trace : LivenessTrace) (diagnostics : List Diagnostic) :
    (start s trace diagnostics).Noted := by
  intro id hid
  have hroot := mem_queue_start hs hid
  obtain ⟨-, -, hqueue⟩ := foldl_addRoot (roots s) { store := s, trace, diagnostics }
  rw [start, hqueue, List.nil_append] at hroot
  rw [start, isSome_reason?_foldl_addRoot, decide_eq_true hroot, Bool.true_or]

lemma mem_diagnostics_follow_iff_misses (hs : s.WellFormed) (hp : s.Raises p.store)
    {d : Diagnostic} : d ∈ (p.follow (DispatchIndex.ofStore s) caller).diagnostics ↔
      d ∈ p.diagnostics ∨ s.Misses caller d := by
  rw [Store.Misses, ← hp.exists_calls_iff (P := fun calls => ∃ edge ∈ calls,
    ¬ s.program.Resolves (Store.idCall edge) ∧ d = .unresolvedEdge (s.shownName caller)
      (s.shownName edge.callee) edge.kind .noDispatchEntry), follow]
  split
  · rename_i hnone
    simp [hnone]
  · rename_i f hf
    rw [mem_diagnostics_foldl_followCall hs hp]
    simp [hf]

/-- The calls without an entry of every function followed are reported. -/
def AllReported (s : Store) (p : Spread) : Prop :=
  ∀ id, p.store.isLive id = true → id ∉ p.queue → ∀ d, s.Misses id d → d ∈ p.diagnostics

lemma AllReported.follow (hs : s.WellFormed) (htracks : Tracks s p) (h : AllReported s p)
    {queue : List SymbolId} (hqueue : p.queue = caller :: queue) :
    AllReported s (({ p with queue } : Spread).follow (DispatchIndex.ofStore s) caller) := by
  intro id hid hnot d hd
  rw [mem_diagnostics_follow_iff_misses (p := { p with queue }) hs htracks.raises]
  have hmarks := marks_follow hs (p := { p with queue }) htracks.raises caller
  rcases hmarks.eq_or_not_queued hqueue hid hnot with rfl | ⟨hold, hnot⟩
  · exact .inr hd
  · exact .inl (h id hold hnot d hd)

/-- Spreading liveness leaves nothing to do. -/
theorem settled_ofStore (hs : s.WellFormed) (trace : LivenessTrace)
    (diagnostics : List Diagnostic) :
    Settled (ofStore s trace diagnostics).store (ofStore s trace diagnostics).trace
      (ofStore s trace diagnostics).diagnostics := by
  have hstart := tracks_start hs trace diagnostics
  obtain ⟨htracks, hqueue⟩ := hstart.run hs
  have hraises := raises_ofStore hs trace diagnostics
  have hfollowed : ∀ id, id ∉ ((start s trace diagnostics).run (.ofStore s)).queue :=
    fun id => hqueue ▸ List.not_mem_nil
  refine ⟨rfl, ?_, ?_, ?_, ?_⟩
  · intro id hid
    rcases hraises.isRoot_iff.mp hid with hroot | hlive
    · exact htracks.roots id hroot
    · exact hlive
  · intro caller target hlive hcalls
    exact htracks.followed caller hlive (hfollowed caller) target
      ((hraises.callsInto_iff hs).mp hcalls)
  · refine run_induction hs (P := Noted) ?_ hstart (noted_start hs trace diagnostics)
    intro p caller queue htracks _ h
    exact follow_induction hs (P := Noted) (fun _ _ h => h)
      (fun p f edge target _ _ _ h => h.reach _ target) htracks.raises h
  · intro caller d hlive hmisses
    have hreported : AllReported s ((start s trace diagnostics).run (.ofStore s)) := by
      refine run_induction hs (P := AllReported s)
        (fun p caller queue htracks hqueue h => h.follow hs htracks hqueue) hstart ?_
      intro id hid hnot
      exact absurd (mem_queue_start hs hid) hnot
    exact hreported caller hlive (hfollowed caller) d ((hraises.misses_iff hs).mp hmisses)

/-! ### Spreading where nothing is left to do -/

lemma reach_of_isDead_eq_false {reason : LiveReason} (h : p.store.isDead id = false) :
    p.reach reason id = p := by
  rw [reach, h]
  rfl

lemma foldl_reach_of_isDead_eq_false {reason : LiveReason} {targets : List SymbolId}
    (h : ∀ target ∈ targets, p.store.isDead target = false) :
    targets.foldl (reach reason) p = p := by
  induction targets with
  | nil => rfl
  | cons target targets ih =>
    rw [List.forall_mem_cons] at h
    rw [List.foldl_cons, reach_of_isDead_eq_false h.1, ih h.2]

lemma isDead_eq_false_of_callsInto (h : Settled s p.trace p.diagnostics) {target : SymbolId}
    (hcaller : s.isLive caller = true) (htarget : s.definesFunction target = true →
      s.CallsInto caller target) : s.isDead target = false :=
  Store.isDead_eq_false_iff.mpr fun hdef => h.closed caller target hcaller (htarget hdef)

lemma Settled.follow_eq_self (hs : p.store.WellFormed)
    (h : Settled p.store p.trace p.diagnostics) (hcaller : p.store.isLive caller = true) :
    p.follow (DispatchIndex.ofStore p.store) caller = p := by
  obtain ⟨f, hf, -⟩ := Store.isLive_iff.mp hcaller
  have hcall : ∀ edge ∈ f.calls,
      p.followCall (DispatchIndex.ofStore p.store) caller edge = p := by
    intro edge hedge
    have htargets : ∀ target ∈ ((DispatchIndex.ofStore p.store).targets p.store edge.kind
        edge.callee).implementations, p.store.isDead target = false := by
      intro target htarget
      refine isDead_eq_false_of_callsInto h hcaller fun hdef => ⟨hdef, f, hf, edge, hedge, ?_⟩
      exact (DispatchIndex.mem_targets_ofStore hs.typesFiled).mp htarget
    rw [followCall]
    split
    · exact foldl_reach_of_isDead_eq_false htargets
    · rename_i hunresolved
      rw [resolved_targets_ofStore hs] at hunresolved
      have hmem := h.reported caller _ hcaller ⟨f, hf, edge, hedge, hunresolved, rfl⟩
      rw [Diagnostic.addTo, if_pos hmem]
      exact foldl_reach_of_isDead_eq_false htargets
  rw [follow, hf]
  change f.calls.foldl _ p = p
  generalize f.calls = edges at hcall
  induction edges with
  | nil => rfl
  | cons edge edges ih =>
    rw [List.forall_mem_cons] at hcall
    rw [List.foldl_cons, hcall.1, ih hcall.2]

lemma Settled.run_eq (hs : s.WellFormed) (h : Settled s p.trace p.diagnostics)
    (hstore : p.store = s) (hqueue : ∀ id ∈ p.queue, s.isLive id = true) :
    p.run (DispatchIndex.ofStore s) = { p with queue := [] } := by
  fun_induction Spread.run (DispatchIndex.ofStore s) p with
  | case1 p hempty => rw [← hempty]
  | case2 p caller queue hcons ih =>
    -- the first function of the queue leaves it, and nothing else happens
    subst hstore
    rw [hcons, List.forall_mem_cons] at hqueue
    have hsame : ({ p with queue } : Spread).follow (DispatchIndex.ofStore p.store) caller =
        { p with queue } :=
      follow_eq_self (p := { p with queue }) hs h hqueue.1
    rw [hsame] at ih ⊢
    exact ih h rfl hqueue.2

lemma Settled.start_eq (hs : s.WellFormed) {trace : LivenessTrace} {diagnostics : List Diagnostic}
    (h : Settled s trace diagnostics) : start s trace diagnostics =
      { store := s, trace, diagnostics, queue := (Spread.roots s).map (·.id) } := by
  have hroots : ∀ (fs : List FunctionSummary) (queue : List SymbolId),
      (∀ id ∈ fs.map (·.id), s.isLive id = true) →
        fs.foldl addRoot { store := s, trace, diagnostics, queue } =
          { store := s, trace, diagnostics, queue := queue ++ fs.map (·.id) } := by
    intro fs
    induction fs with
    | nil => exact fun queue _ => by rw [List.map_nil, List.append_nil, List.foldl_nil]
    | cons f fs ih =>
      intro queue hlive
      rw [List.map_cons, List.forall_mem_cons] at hlive
      have hdead : s.isDead f.id = false := Store.isDead_eq_false_iff.mpr fun _ => hlive.1
      have hfirst : addRoot { store := s, trace, diagnostics, queue } f =
          { store := s, trace, diagnostics, queue := queue ++ [f.id] } := by
        rw [addRoot, LivenessTrace.record_of_isSome (h.noted f.id hlive.1), Store.setLive, hdead]
        rfl
      rw [List.foldl_cons, hfirst, ih _ hlive.2, List.map_cons, List.append_assoc,
        List.singleton_append]
  exact hroots (Spread.roots s) [] fun id hid => h.roots id ((mem_roots hs).mp hid)

/-- Where liveness has spread, spreading it marks nothing and changes nothing. -/
theorem Settled.ofStore_eq (hs : s.WellFormed) {trace : LivenessTrace}
    {diagnostics : List Diagnostic} (h : Settled s trace diagnostics) :
    ofStore s trace diagnostics = { store := s, trace, diagnostics } := by
  have hcomputed : s.markLivenessComputed = s := by
    rw [Store.markLivenessComputed, ← h.computed]
  rw [ofStore, h.start_eq hs]
  rw [run_eq (s := s) hs h rfl fun id hid => h.roots id ((mem_roots hs).mp hid)]
  dsimp only
  rw [hcomputed]

end Spread

end LinkSummary
