import LinkSummary.Proofs.Liveness.Justified
import Mathlib.Order.Bounds.Defs

/-!
# Explanations are shortest

The functions in the queue wait in the order of their distances from a root, and no function is live
that is more than one call further than any of them. So every function is noted with a referrer as
near to a root as any of its callers, and its chain has no more links than the shortest path to it.
-/

namespace LinkSummary

namespace Store

variable {s : Store} {id caller target : SymbolId} {reason : LiveReason}

/-- A function is reached from a root in a number of calls. -/
inductive ReachedIn (s : Store) : Nat → SymbolId → Prop
  | root {id : SymbolId} : s.IsRoot id → ReachedIn s 0 id
  | call {n : Nat} {caller target : SymbolId} :
    ReachedIn s n caller → s.CallsInto caller target → ReachedIn s (n + 1) target

/-! ### What reasons tell -/

lemma isRoot_of_justifies (h : s.Justifies s id reason) (hreferrer : reason.referrer = none) :
    s.IsRoot id := by
  cases h with
  | preserved hf hpreserved => exact ⟨_, hf, .inl hpreserved⟩
  | liveInInput _ _ hlive =>
    obtain ⟨f, hf, hlive⟩ := isLive_iff.mp hlive
    exact ⟨f, hf, .inr hlive⟩
  | staticRef => cases hreferrer
  | indirectRef => cases hreferrer

lemma callsInto_of_justifies (hs : s.WellFormed) (h : s.Justifies s target reason)
    (hreferrer : reason.referrer = some caller) (hdef : s.definesFunction target = true) :
    s.CallsInto caller target := by
  cases h with
  | preserved => cases hreferrer
  | liveInInput => cases hreferrer
  | staticRef hcall =>
    cases hreferrer
    obtain ⟨f, hf, edge, hedge, hkind, rfl⟩ := hcall
    exact ⟨hdef, f, hf, edge, hedge, hkind ▸ .direct⟩
  | indirectRef hcall =>
    cases hreferrer
    obtain ⟨f, hf, edge, hedge, -, htarget⟩ := hcall
    exact ⟨hdef, f, hf, edge, hedge, (DispatchIndex.mem_targets_ofStore hs.typesFiled).mp htarget⟩

end Store

namespace Spread

variable {s : Store} {p p₀ : Spread} {caller target id : SymbolId} {reason : LiveReason}

/-- The number of links in the chain of a function. -/
def linkCount (p : Spread) (id : SymbolId) : Nat := (p.trace.chain id).length

/-- A chain is a path from a root, with a call for every link but the last. -/
lemma Explained.exists_reachedIn (hs : s.WellFormed) (hp : s.Raises p.store) (h : Explained s p)
    (hlive : p.store.isLive id = true) : ∃ n, p.linkCount id = n + 1 ∧ s.ReachedIn n id := by
  have hback := h.founded.leadsBack_chain ((h.noted_iff id).mpr hlive)
  rw [linkCount]
  generalize p.trace.chain id = links at hback
  induction hback with
  | root hreason hreferrer =>
    exact ⟨0, rfl, .root (Store.isRoot_of_justifies (h.justified _ _ hreason) hreferrer)⟩
  | @link id referrer reason links hreason hreferrer hrest ih =>
    obtain ⟨reason', rest, rfl⟩ := hrest.exists_cons
    have hreferrerLive : p.store.isLive referrer = true :=
      (h.noted_iff referrer).mp <| Option.isSome_of_eq_some <|
        hrest.reason?_of_mem _ List.mem_cons_self
    obtain ⟨n, hlength, hreached⟩ := ih hreferrerLive
    have hdef : s.definesFunction id = true :=
      (hp.definesFunction id).symm.trans (Store.definesFunction_of_isLive hlive)
    refine ⟨n + 1, by rw [List.length_cons, hlength], hreached.call ?_⟩
    exact Store.callsInto_of_justifies hs (h.justified _ _ hreason) hreferrer hdef

/-! ### Reaching one function -/

lemma Explained.linkCount_reach_of_isLive (h : Explained s p)
    (h' : Explained s (p.reach reason target)) (hid : p.store.isLive id = true) :
    (p.reach reason target).linkCount id = p.linkCount id := by
  rw [Spread.reach] at h' ⊢
  split
  · rename_i hdead
    rw [if_pos hdead] at h'
    exact congrArg List.length (h.founded.chain_record h'.founded ((h.noted_iff id).mpr hid))
  · rfl

/-- A function that is marked is one link further than its referrer. -/
lemma Explained.linkCount_reach_of_isDead (h : Explained s p)
    (h' : Explained s (p.reach reason target)) (hdead : p.store.isDead target = true)
    (hreferrer : reason.referrer = some caller) (hcaller : p.store.isLive caller = true) :
    (p.reach reason target).linkCount target = p.linkCount caller + 1 := by
  have hnone : p.trace.reason? target = none := by
    rw [← Option.not_isSome_iff_eq_none, h.noted_iff]
    exact (Store.isDead_iff_not_isLive.mp hdead).2
  have hreason : (p.reach reason target).trace.reason? target = some reason := by
    rw [Spread.reach, if_pos hdead, LivenessTrace.reason?_record, if_pos rfl, hnone,
      Option.getD_none]
  rw [← h.linkCount_reach_of_isLive h' hcaller]
  exact h'.founded.length_chain_of_referrer hreason hreferrer
    ((h'.noted_iff caller).mpr (isLive_reach hcaller))

/-! ### Following one function -/

/-- Since a function began to be followed, live functions have kept their chains, and those that
became live wait behind the others, one link further than the function. -/
structure OneFurther (s : Store) (caller : SymbolId) (p₀ p : Spread) : Prop where
  explained : Explained s p
  live : ∀ id, p₀.store.isLive id = true → p.store.isLive id = true
  kept : ∀ id, p₀.store.isLive id = true → p.linkCount id = p₀.linkCount id
  further : ∀ id, p.store.isLive id = true → ¬ p₀.store.isLive id = true →
    p.linkCount id = p₀.linkCount caller + 1
  queue : ∃ new, p.queue = p₀.queue ++ new ∧
    ∀ id ∈ new, p.store.isLive id = true ∧ ¬ p₀.store.isLive id = true

namespace OneFurther

lemma refl (h : Explained s p) (caller : SymbolId) : OneFurther s caller p p :=
  ⟨h, fun _ h => h, fun _ _ => rfl, fun _ h h' => absurd h h',
    [], (List.append_nil _).symm, List.forall_mem_nil _⟩

lemma reach (h : OneFurther s caller p₀ p) (hcaller : p₀.store.isLive caller = true)
    {kind : CallKind} (hreason : s.Justifies s target (reasonOf caller kind)) :
    OneFurther s caller p₀ (p.reach (reasonOf caller kind) target) := by
  have hcallerLive := h.live caller hcaller
  have hexplained : Explained s (p.reach (reasonOf caller kind) target) := by
    refine h.explained.reach hreason fun referrer hreferrer => ?_
    rw [referrer_reasonOf, Option.some.injEq] at hreferrer
    exact hreferrer ▸ hcallerLive
  by_cases hdead : p.store.isDead target = true
  · have htarget := (Store.isDead_iff_not_isLive.mp hdead).2
    have hmarks := marks_reach (reasonOf caller kind) p target
    obtain ⟨new, hqueue, hnew⟩ := h.queue
    refine ⟨hexplained, fun id hid => isLive_reach (h.live id hid), ?_, ?_, new ++ [target], ?_, ?_⟩
    · intro id hid
      rw [h.explained.linkCount_reach_of_isLive hexplained (h.live id hid), h.kept id hid]
    · intro id hid hnot
      rcases (hmarks.live id).mp hid with hid | ⟨rfl, -⟩
      · rw [h.explained.linkCount_reach_of_isLive hexplained hid, h.further id hid hnot]
      · rw [h.explained.linkCount_reach_of_isDead hexplained hdead (referrer_reasonOf caller kind)
          hcallerLive, h.kept caller hcaller]
    · rw [Spread.reach, if_pos hdead, hqueue, List.append_assoc]
    · intro id hid
      rcases List.mem_append.mp hid with hid | hid
      · exact ⟨isLive_reach (hnew id hid).1, (hnew id hid).2⟩
      · rw [List.mem_singleton.mp hid, hmarks.live]
        exact ⟨.inr ⟨rfl, (Store.isDead_iff_not_isLive.mp hdead).1⟩,
          fun hold => htarget (h.live target hold)⟩
  · rw [Spread.reach, if_neg hdead]
    exact h

lemma follow (hs : s.WellFormed) (hp : s.Raises p.store) (h : Explained s p)
    (hcaller : p.store.isLive caller = true) :
    OneFurther s caller p (p.follow (DispatchIndex.ofStore s) caller) := by
  refine follow_induction hs (P := OneFurther s caller p) ?_ ?_ hp (refl h caller)
  · intro p' diagnostics h
    exact ⟨⟨h.explained.founded, h.explained.noted_iff, h.explained.justified⟩, h.live, h.kept,
      h.further, h.queue⟩
  · intro p' f edge target hf hedge htarget h
    exact h.reach hcaller (Store.justifies_reasonOf hs hf hedge htarget)

end OneFurther

/-! ### The order of the queue -/

/-- Liveness has spread in the order of distances from the roots. -/
structure BreadthFirst (s : Store) (p : Spread) : Prop where
  explained : Explained s p
  roots : ∀ id, s.IsRoot id → p.linkCount id = 1
  ordered : p.queue.Pairwise fun id later => p.linkCount id ≤ p.linkCount later
  near : ∀ id, p.store.isLive id = true → ∀ waiting ∈ p.queue,
    p.linkCount id ≤ p.linkCount waiting + 1
  followed : ∀ id, p.store.isLive id = true → id ∉ p.queue → ∀ target, s.CallsInto id target →
    p.linkCount target ≤ p.linkCount id + 1

/-- One turn of the loop keeps the order. -/
lemma BreadthFirst.follow (hs : s.WellFormed) (htracks : Tracks s p) (h : BreadthFirst s p)
    {queue : List SymbolId} (hqueue : p.queue = caller :: queue) :
    BreadthFirst s (({ p with queue } : Spread).follow (DispatchIndex.ofStore s) caller) := by
  have hcaller : p.store.isLive caller = true := htracks.queued caller (hqueue ▸ List.mem_cons_self)
  have hwaits : ∀ id ∈ queue, p.store.isLive id = true := fun id hid =>
    htracks.queued id (hqueue ▸ List.mem_cons_of_mem _ hid)
  have hmarks := marks_follow hs (p := { p with queue }) htracks.raises caller
  have hone := OneFurther.follow (p := { p with queue }) hs htracks.raises
    ⟨h.explained.founded, h.explained.noted_iff, h.explained.justified⟩ hcaller
  generalize ({ p with queue } : Spread).follow (DispatchIndex.ofStore s) caller = p'
    at hmarks hone
  obtain ⟨new, hqueue', hnew⟩ := hone.queue
  have hkept : ∀ id, p.store.isLive id = true → p'.linkCount id = p.linkCount id := hone.kept
  have hfurther : ∀ id ∈ new, p'.linkCount id = p.linkCount caller + 1 := fun id hid =>
    hone.further id (hnew id hid).1 (hnew id hid).2
  have hordered := h.ordered
  rw [hqueue, List.pairwise_cons] at hordered
  -- nothing is live that is more than one link further than the function followed
  have hle : ∀ id, p'.store.isLive id = true → p'.linkCount id ≤ p.linkCount caller + 1 := by
    intro id hid
    by_cases hold : p.store.isLive id = true
    · rw [hkept id hold]
      exact h.near id hold caller (hqueue ▸ List.mem_cons_self)
    · exact Nat.le_of_eq (hone.further id hid hold)
  refine ⟨hone.explained, ?_, ?_, ?_, ?_⟩
  · intro id hid
    rw [hkept id (htracks.roots id hid)]
    exact h.roots id hid
  · rw [hqueue', List.pairwise_append]
    refine ⟨?_, ?_, ?_⟩
    · refine hordered.2.imp_of_mem fun {id later} hid hlater hle => ?_
      rw [hkept id (hwaits id hid), hkept later (hwaits later hlater)]
      exact hle
    · refine List.pairwise_of_forall_mem_list fun id hid later hlater => ?_
      rw [hfurther id hid, hfurther later hlater]
    · intro id hid later hlater
      rw [hfurther later hlater]
      exact hle id (hone.live id (hwaits id hid))
  · intro id hid waiting hwaiting
    have hfrom : p.linkCount caller ≤ p'.linkCount waiting := by
      rw [hqueue'] at hwaiting
      rcases List.mem_append.mp hwaiting with hwaiting | hwaiting
      · rw [hkept waiting (hwaits waiting hwaiting)]
        exact hordered.1 waiting hwaiting
      · rw [hfurther waiting hwaiting]
        exact Nat.le_succ _
    exact Nat.le_trans (hle id hid) (Nat.succ_le_succ hfrom)
  · intro id hid hnot target htarget
    rcases hmarks.eq_or_not_queued hqueue hid hnot with rfl | ⟨hold, hnot⟩
    · have hdef : p.store.definesFunction target = true :=
        (htracks.raises.definesFunction target).trans htarget.1
      rw [hkept id hcaller]
      exact hle target ((hmarks.live target).mpr (.inr ⟨htarget, hdef⟩))
    · rw [hkept id hold, hkept target (htracks.followed id hold hnot target htarget)]
      exact h.followed id hold hnot target htarget

/-! ### The roots -/

lemma referrer_of_reason?_foldl_addRoot (fs : List FunctionSummary)
    (h : ∀ id reason, p.trace.reason? id = some reason → reason.referrer = none) :
    ∀ id reason, (fs.foldl addRoot p).trace.reason? id = some reason →
      reason.referrer = none := by
  induction fs generalizing p with
  | nil => exact h
  | cons f fs ih =>
    refine ih fun id reason hid => ?_
    rw [addRoot, LivenessTrace.reason?_record] at hid
    split at hid
    · cases hold : p.trace.reason? id with
      | some old =>
        rw [hold, Option.getD_some, Option.some.injEq] at hid
        exact hid ▸ h id old hold
      | none =>
        rw [hold, Option.getD_none, Option.some.injEq] at hid
        rw [← hid]
        split
        · rfl
        · rfl
    · exact h id reason hid

lemma breadthFirst_start (hs : s.WellFormed) (diagnostics : List Diagnostic) :
    BreadthFirst s (start s .empty diagnostics) := by
  have hexplained := explained_start hs diagnostics
  have htracks := tracks_start hs .empty diagnostics
  have hone : ∀ id, (start s .empty diagnostics).store.isLive id = true →
      (start s .empty diagnostics).linkCount id = 1 := by
    intro id hid
    obtain ⟨reason, hreason⟩ := Option.isSome_iff_exists.mp ((hexplained.noted_iff id).mpr hid)
    refine hexplained.founded.length_chain_of_root hreason ?_
    refine referrer_of_reason?_foldl_addRoot (p := { store := s, trace := .empty, diagnostics })
      (roots s) ?_ id reason hreason
    intro id reason h
    rw [LivenessTrace.reason?_empty] at h
    cases h
  refine ⟨hexplained, fun id hid => hone id (htracks.roots id hid), ?_, ?_, ?_⟩
  · refine List.pairwise_of_forall_mem_list fun id hid later hlater => ?_
    rw [hone id (htracks.queued id hid), hone later (htracks.queued later hlater)]
  · intro id hid waiting hwaiting
    rw [hone id hid, hone waiting (htracks.queued waiting hwaiting)]
    exact Nat.le_succ 1
  · intro id hid hnot
    exact absurd (mem_queue_start hs hid) hnot

/-! ### The result -/

/-- When no function waits any more, no path to a function is shorter than its chain. -/
lemma BreadthFirst.linkCount_le (htracks : Tracks s p) (h : BreadthFirst s p)
    (hqueue : p.queue = []) {n : Nat} (hid : s.ReachedIn n id) :
    p.store.isLive id = true ∧ p.linkCount id ≤ n + 1 := by
  induction hid with
  | root hroot => exact ⟨htracks.roots _ hroot, Nat.le_of_eq (h.roots _ hroot)⟩
  | @call n caller target _ hcalls ih =>
    have hnot : caller ∉ p.queue := hqueue ▸ List.not_mem_nil
    refine ⟨htracks.followed caller ih.1 hnot target hcalls, ?_⟩
    exact Nat.le_trans (h.followed caller ih.1 hnot target hcalls) (Nat.succ_le_succ ih.2)

/-- Spreading liveness with a new trace explains every live function by a shortest path. -/
theorem isLeast_linkCount_ofStore (hs : s.WellFormed) (diagnostics : List Diagnostic)
    (hlive : (ofStore s .empty diagnostics).store.isLive id = true) :
    ∃ n, (ofStore s .empty diagnostics).linkCount id = n + 1 ∧
      IsLeast {n | s.ReachedIn n id} n := by
  have hstart := tracks_start hs .empty diagnostics
  obtain ⟨htracks, hqueue⟩ := hstart.run hs
  have hbreadth : BreadthFirst s ((start s .empty diagnostics).run (DispatchIndex.ofStore s)) :=
    run_induction hs (P := BreadthFirst s)
      (fun p caller queue htracks hqueue h => h.follow hs htracks hqueue) hstart
      (breadthFirst_start hs diagnostics)
  obtain ⟨n, hcount, hreached⟩ := hbreadth.explained.exists_reachedIn hs htracks.raises hlive
  refine ⟨n, hcount, hreached, fun m hm => ?_⟩
  have hle := (hbreadth.linkCount_le htracks hqueue hm).2
  rw [hcount] at hle
  exact Nat.le_of_succ_le_succ hle

end Spread

end LinkSummary
