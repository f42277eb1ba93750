import LinkSummary.Proofs.Liveness.Settled

/-!
# Reasons are justified

A trace kept from the beginning notes a reason for each live function and for no other. A root is
noted as what it is, and any other function with a live function whose call may reach it.
-/

namespace LinkSummary

namespace Store

variable {initial s s' : Store} {id : SymbolId} {reason : LiveReason}

/-- A reason holds of a function in a store, which was initially another one. -/
inductive Justifies (initial s : Store) (id : SymbolId) : LiveReason → Prop
  | preserved {f : FunctionSummary} :
    s.function? id = some f → f.isPreserved = true → Justifies initial s id .preserved
  | liveInInput {f : FunctionSummary} :
    s.function? id = some f → f.isPreserved = false → initial.isLive id = true →
      Justifies initial s id .liveInInput
  | staticRef {referrer : SymbolId} :
    (∃ f, s.function? referrer = some f ∧
      ∃ edge ∈ f.calls, edge.kind = .direct ∧ edge.callee = id) →
        Justifies initial s id (.staticRef referrer)
  | indirectRef {referrer : SymbolId} :
    (∃ f, s.function? referrer = some f ∧ ∃ edge ∈ f.calls, edge.kind ≠ .direct ∧
      id ∈ ((DispatchIndex.ofStore s).targets s edge.kind edge.callee).implementations) →
        Justifies initial s id (.indirectRef referrer)

/-- Reasons still hold when more functions are live. -/
lemma Raises.justifies (h : s.Raises s') (hreason : Justifies initial s id reason) :
    Justifies initial s' id reason := by
  cases hreason with
  | preserved hf hpreserved =>
    obtain ⟨f', hf', rfl | rfl⟩ := h.exists_raised hf
    · exact .preserved hf' hpreserved
    · exact .preserved hf' hpreserved
  | liveInInput hf hpreserved hlive =>
    obtain ⟨f', hf', rfl | rfl⟩ := h.exists_raised hf
    · exact .liveInInput hf' hpreserved hlive
    · exact .liveInInput hf' hpreserved hlive
  | staticRef hcall =>
    exact .staticRef ((h.exists_calls_iff
      (P := fun calls => ∃ edge ∈ calls, edge.kind = .direct ∧ edge.callee = id)).mpr hcall)
  | indirectRef hcall =>
    simp only [← h.targets_eq] at hcall
    exact .indirectRef ((h.exists_calls_iff (P := fun calls =>
      ∃ edge ∈ calls, edge.kind ≠ .direct ∧ id ∈
        ((DispatchIndex.ofStore s').targets s' edge.kind edge.callee).implementations)).mpr hcall)

/-- The reason noted for a target of a call holds. -/
lemma justifies_reasonOf (hs : s.WellFormed) {caller target : SymbolId} {f : FunctionSummary}
    {edge : CallEdge} (hf : s.function? caller = some f) (hedge : edge ∈ f.calls)
    (htarget : s.Dispatches edge.callee edge.kind target) :
    Justifies initial s target (Spread.reasonOf caller edge.kind) := by
  have hmem := (DispatchIndex.mem_targets_ofStore hs.typesFiled).mpr htarget
  cases hkind : edge.kind with
  | direct =>
    rw [hkind] at htarget
    cases htarget
    exact .staticRef ⟨f, hf, edge, hedge, hkind, rfl⟩
  | virtual => exact .indirectRef ⟨f, hf, edge, hedge, by rw [hkind]; decide, hmem⟩
  | witness => exact .indirectRef ⟨f, hf, edge, hedge, by rw [hkind]; decide, hmem⟩

/-! ### Accounts of live functions -/

/-- The links of a chain tell how a function became live: the first is the function itself, each
is followed by its referrer, none comes twice, and the last is a root. -/
structure Accounts (initial s : Store) (trace : LivenessTrace) (function : SymbolId)
    (links : List (SymbolId × LiveReason)) : Prop where
  starts : ∃ reason rest, links = (function, reason) :: rest
  nodup : (links.map (·.1)).Nodup
  recorded : ∀ link ∈ links, trace.reason? link.1 = some link.2
  justified : ∀ link ∈ links, Justifies initial s link.1 link.2
  follows : links.IsChain fun link next => link.2.referrer = some next.1
  ends : ∃ link, links.getLast? = some link ∧ (link.2 = .preserved ∨ link.2 = .liveInInput)

/-- If all reasons hold, the chain of a function with a reason accounts for it. -/
theorem accounts_chain {trace : LivenessTrace} (hfounded : trace.Founded)
    (hjustified : ∀ id reason, trace.reason? id = some reason → Justifies initial s id reason)
    (hid : (trace.reason? id).isSome) : Accounts initial s trace id (trace.chain id) := by
  have hback := hfounded.leadsBack_chain hid
  obtain ⟨rank, hrank⟩ := hfounded
  refine ⟨hback.exists_cons, (hback.nodup hrank).2, hback.reason?_of_mem, ?_, hback.isChain, ?_⟩
  · intro link hlink
    exact hjustified link.1 link.2 (hback.reason?_of_mem link hlink)
  · obtain ⟨⟨last, reason⟩, hlast, hreferrer⟩ := hback.exists_getLast?
    refine ⟨(last, reason), hlast, ?_⟩
    cases reason with
    | preserved => exact .inl rfl
    | liveInInput => exact .inr rfl
    | staticRef referrer => cases hreferrer
    | indirectRef referrer => cases hreferrer

end Store

namespace Spread

variable {s : Store} {p : Spread} {caller target id : SymbolId} {reason : LiveReason}

/-- A trace tells of the live functions, and of no others, why they are live. -/
structure Explained (s : Store) (p : Spread) : Prop where
  founded : p.trace.Founded
  noted_iff : ∀ id, (p.trace.reason? id).isSome ↔ p.store.isLive id = true
  justified : ∀ id reason, p.trace.reason? id = some reason → s.Justifies s id reason

/-- There are as many reasons as live functions. -/
lemma Explained.size_eq (h : Explained s p) : p.trace.size = p.store.liveCount := by
  have hsame : p.trace.reasons.keys.Perm (p.store.functions.keys.filter p.store.isLive) := by
    rw [List.perm_ext_iff_of_nodup p.trace.reasons.keys_nodup
      (p.store.functions.keys_nodup.filter _)]
    intro id
    rw [IdMap.mem_keys_iff, ← Option.isSome_iff_exists, List.mem_filter]
    refine (h.noted_iff id).trans (Iff.symm (and_iff_right_iff_imp.mpr fun hlive => ?_))
    obtain ⟨f, hf, -⟩ := Store.isLive_iff.mp hlive
    exact IdMap.mem_keys_iff.mpr ⟨f, hf⟩
  have hlength := hsame.length_eq
  rw [← List.countP_eq_length_filter, IdMap.countP_keys (q := (·.isLive))] at hlength
  · rw [Store.liveCount, ← hlength, LivenessTrace.size, IdMap.size, IdMap.keys, List.length_map]
  · intro id f hf
    rw [Store.isLive, Store.function?, hf, Option.any_some]

lemma referrer_reasonOf (caller : SymbolId) (kind : CallKind) :
    (reasonOf caller kind).referrer = some caller := by
  cases kind <;> rfl

/-- A function that is reached for a reason which holds is noted with it. -/
lemma Explained.reach (h : Explained s p) (hreason : s.Justifies s target reason)
    (hreferrer : ∀ referrer, reason.referrer = some referrer → p.store.isLive referrer = true) :
    Explained s (p.reach reason target) := by
  rw [Spread.reach]
  split
  · rename_i hdead
    rw [Store.isDead_iff_not_isLive] at hdead
    refine ⟨h.founded.record fun referrer hr => (h.noted_iff referrer).mpr (hreferrer referrer hr),
      ?_, ?_⟩
    · intro id
      dsimp only
      rw [LivenessTrace.isSome_reason?_record, Store.isLive_setLive, Bool.or_eq_true, h.noted_iff,
        decide_eq_true_eq, or_comm]
      refine or_congr_right ⟨?_, And.left⟩
      rintro rfl
      exact ⟨rfl, hdead.1⟩
    · intro id reason' hid
      rw [LivenessTrace.reason?_record] at hid
      split at hid
      · rename_i heq
        subst heq
        have hnone : p.trace.reason? id = none := by
          rw [← Option.not_isSome_iff_eq_none, h.noted_iff]
          exact hdead.2
        rw [hnone, Option.getD_none, Option.some.injEq] at hid
        exact hid ▸ hreason
      · exact h.justified id reason' hid
  · exact h

lemma isLive_reach (h : p.store.isLive id = true) :
    (p.reach reason target).store.isLive id = true :=
  (marks_reach reason p target).raises.isLive h

lemma Explained.follow (hs : s.WellFormed) (hp : s.Raises p.store) (h : Explained s p)
    (hcaller : p.store.isLive caller = true) :
    Explained s (p.follow (DispatchIndex.ofStore s) caller) := by
  refine (follow_induction hs (P := fun p => Explained s p ∧ p.store.isLive caller = true)
    (fun _ _ h => ⟨⟨h.1.founded, h.1.noted_iff, h.1.justified⟩, h.2⟩) ?_ hp ⟨h, hcaller⟩).1
  rintro p f edge target hf hedge htarget ⟨h, hcaller⟩
  refine ⟨h.reach (Store.justifies_reasonOf hs hf hedge htarget) ?_, isLive_reach hcaller⟩
  intro referrer hreferrer
  rw [referrer_reasonOf, Option.some.injEq] at hreferrer
  exact hreferrer ▸ hcaller

/-! ### The roots -/

lemma justifies_root {f : FunctionSummary} (hf : s.function? f.id = some f)
    (hroot : f.isPreserved = true ∨ f.isLive = true) :
    s.Justifies s f.id (if f.isPreserved then .preserved else .liveInInput) := by
  cases hpreserved : f.isPreserved with
  | true => exact .preserved hf hpreserved
  | false =>
    rw [hpreserved] at hroot
    exact .liveInInput hf hpreserved
      (Store.isLive_iff.mpr ⟨f, hf, hroot.resolve_left Bool.false_ne_true⟩)

lemma founded_foldl_addRoot (fs : List FunctionSummary)
    (hfs : ∀ f ∈ fs, s.Justifies s f.id (if f.isPreserved then .preserved else .liveInInput))
    (hfounded : p.trace.Founded)
    (hjustified : ∀ id reason, p.trace.reason? id = some reason → s.Justifies s id reason) :
    (fs.foldl addRoot p).trace.Founded ∧
      ∀ id reason, (fs.foldl addRoot p).trace.reason? id = some reason →
        s.Justifies s id reason := by
  induction fs generalizing p with
  | nil => exact ⟨hfounded, hjustified⟩
  | cons f fs ih =>
    rw [List.forall_mem_cons] at hfs
    refine ih hfs.2 (hfounded.record fun referrer hreferrer => ?_) ?_
    · cases hpreserved : f.isPreserved <;> rw [hpreserved] at hreferrer <;> cases hreferrer
    · intro id reason hid
      rw [addRoot, LivenessTrace.reason?_record] at hid
      split at hid
      · rename_i heq
        subst heq
        cases hold : p.trace.reason? f.id with
        | some old =>
          rw [hold, Option.getD_some, Option.some.injEq] at hid
          exact hid ▸ hjustified f.id old hold
        | none =>
          rw [hold, Option.getD_none, Option.some.injEq] at hid
          exact hid ▸ hfs.1
      · exact hjustified id reason hid

lemma explained_start (hs : s.WellFormed) (diagnostics : List Diagnostic) :
    Explained s (start s .empty diagnostics) := by
  have hroots : ∀ f ∈ roots s,
      s.Justifies s f.id (if f.isPreserved then .preserved else .liveInInput) := by
    intro f hf
    rw [roots, List.mem_filter, IdMap.mem_values_iff, Bool.or_eq_true] at hf
    obtain ⟨⟨key, hf⟩, hroot⟩ := hf
    exact justifies_root ((hs.functions hf).id_eq ▸ hf) hroot
  have hempty : ∀ id reason, LivenessTrace.empty.reason? id = some reason →
      s.Justifies s id reason := by
    intro id reason h
    rw [LivenessTrace.reason?_empty] at h
    cases h
  obtain ⟨hfounded, hjustified⟩ := founded_foldl_addRoot (s := s)
    (p := { store := s, trace := .empty, diagnostics }) (roots s) hroots
    LivenessTrace.founded_empty hempty
  refine ⟨hfounded, fun id => ?_, hjustified⟩
  rw [isLive_start_iff hs, ← mem_roots hs, start, isSome_reason?_foldl_addRoot,
    LivenessTrace.reason?_empty, Option.isSome_none, Bool.or_false, decide_eq_true_eq]

/-- Spreading liveness with a new trace explains every live function. -/
theorem explained_ofStore (hs : s.WellFormed) (diagnostics : List Diagnostic) :
    Explained s (ofStore s .empty diagnostics) := by
  have hrun : Explained s ((start s .empty diagnostics).run (DispatchIndex.ofStore s)) := by
    refine run_induction hs (P := Explained s) ?_ (tracks_start hs .empty diagnostics)
      (explained_start hs diagnostics)
    intro p caller queue htracks hqueue h
    exact Explained.follow (p := { p with queue }) hs htracks.raises
      ⟨h.founded, h.noted_iff, h.justified⟩
      (htracks.queued caller (hqueue ▸ List.mem_cons_self))
  exact ⟨hrun.founded, hrun.noted_iff, hrun.justified⟩

end Spread

end LinkSummary
