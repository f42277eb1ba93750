import LinkSummary.Proofs.Store.Named

/-!
# Liveness by name

Spreading liveness over a store makes the functions live whose names are reachable in the program by
name, and changes nothing else there. What it reports are the dynamic calls of these functions that
no table entry matches, so neither depends on the ids.
-/

namespace LinkSummary

namespace Store

variable {s s' : Store} {f f' : FunctionSummary}

/-! ### The live functions by name -/

lemma WellFormed.contains_reachable (hs : s.WellFormed) {id : SymbolId} (h : s.Reachable id) :
    s.symbols.contains id = true := by
  obtain ⟨root, hroot, hpath⟩ := h
  have hdef : s.definesFunction id = true := by
    rcases hpath.cases_tail with rfl | ⟨_, -, hcalls⟩
    · exact hroot.definesFunction
    · exact hcalls.1
  obtain ⟨f, hf⟩ := definesFunction_iff.mp hdef
  exact hs.contains_function hf

lemma Raises.faithful (h : s.Raises s') (hs : s.Faithful) : s'.Faithful :=
  ⟨h.wellFormed hs.wellFormed, h.symbols ▸ hs.size_lt⟩

lemma Raises.shownName (h : s.Raises s') : s'.shownName = s.shownName := by
  funext id
  rw [Store.shownName, Store.shownName, h.symbols]

lemma Raises.types_named (h : s.Raises s') : s'.named.types = s.named.types := by
  have htype : s'.type? = s.type? := by
    funext id
    rw [type?, type?, h.types]
  have htables : s'.namedTables = s.namedTables := by
    funext t
    rw [namedTables, namedTables, h.shownName, h.symbols]
  funext name
  simp only [named, typeNamed?, h.symbols, htype, htables]

lemma Raises.namedFunction_eq (h : s.Raises s') (hf : f' = f ∨ f' = f.markLive) :
    s'.namedFunction f' = (s.namedFunction f).withLive f'.isLive := by
  have hcall : s'.namedCall = s.namedCall := by
    funext edge
    rw [namedCall, namedCall, h.shownName]
  rcases hf with rfl | rfl
  · simp [namedFunction, hcall, Program.Function.withLive, FunctionSummary.isLive]
  · simp [namedFunction, hcall, Program.Function.withLive, FunctionSummary.markLive,
      FunctionSummary.isLive]

/-- When the reachable functions of a store have become live, they have so in its program by
name. -/
theorem Raises.named_eq_spread (h : s.Raises s') (hs : s.Faithful)
    (hlive : ∀ id, s'.isLive id = true ↔ s.Reachable id) : s'.named = s.named.spread := by
  refine Program.ext ?_ h.types_named
  funext name
  cases hid : s.symbols.lookup name with
  | none =>
    have hid' : s'.symbols.lookup name = none := h.symbols ▸ hid
    simp only [Program.spread, functions_named_of_lookup_eq_none hid,
      functions_named_of_lookup_eq_none hid', Option.map_none]
  | some id =>
    have hid' : s'.symbols.lookup name = some id := h.symbols ▸ hid
    simp only [Program.spread, functions_named_of_lookup hid, functions_named_of_lookup hid']
    cases hf : s.function? id with
    | none =>
      rcases h.functions id with heq | heq
      · simp [heq, hf]
      · simp [heq, hf]
    | some f =>
      obtain ⟨f', hf', hraised⟩ := h.exists_raised hf
      have hreach : f'.isLive = true ↔ s.named.Reachable name := by
        rw [← shownName_of_lookup hs.size_lt hid,
          hs.reachable_named_iff (hs.wellFormed.contains_function hf), ← hlive, isLive_iff]
        simp [hf']
      simp only [hf', Option.map_some, h.namedFunction_eq hraised, ← hreach, Bool.decide_eq_true]

/-! ### Calls without an entry -/

/-- A table of a store has an entry for a call if one has by name. -/
lemma Faithful.resolves_named_iff (hs : s.Faithful) {edge : CallEdge}
    (hedge : s.symbols.contains edge.callee = true) :
    s.named.Resolves (s.namedCall edge) ↔ s.program.Resolves (idCall edge) := by
  refine ⟨fun h => ?_, hs.embeds_shownName.resolves⟩
  have hback : (s.namedCall edge).map s.idOf = idCall edge := by
    simp only [Program.Call.map, namedCall, idCall, hs.idOf_shownName hedge]
  exact hback ▸ hs.embeds_idOf.resolves h

end Store

lemma Diagnostic.mem_addTo {ds : List Diagnostic} {d d' : Diagnostic} :
    d' ∈ Diagnostic.addTo ds d ↔ d' ∈ ds ∨ d' = d := by
  simp only [addTo]
  split
  · grind
  · simp

/-- The dynamic calls of a function for which no table has an entry are reported. -/
def Program.ReportsFrom (p : Program String) (caller : String) (d : Diagnostic) : Prop :=
  ∃ f, p.functions caller = some f ∧ ∃ call ∈ f.calls, ¬ p.Resolves call ∧
    d = .unresolvedEdge caller call.callee call.kind .noDispatchEntry

namespace Spread

variable {s : Store} {p : Spread} {caller : SymbolId} {d : Diagnostic}

lemma resolved_targets_ofStore (hs : s.WellFormed) (s' : Store) (edge : CallEdge) :
    ((DispatchIndex.ofStore s).targets s' edge.kind edge.callee).resolved = true ↔
      s.program.Resolves (Store.idCall edge) :=
  (DispatchIndex.resolved_targets_eq_true_iff hs.typesFiled s').trans
    Store.resolves_program_iff.symm

lemma diagnostics_foldl_reach (reason : LiveReason) (p : Spread) (targets : List SymbolId) :
    (targets.foldl (reach reason) p).diagnostics = p.diagnostics := by
  induction targets generalizing p with
  | nil => rfl
  | cons target targets ih =>
    rw [List.foldl_cons, ih, reach]
    split <;> rfl

lemma mem_diagnostics_followCall (hs : s.WellFormed) (hp : s.Raises p.store) (edge : CallEdge) :
    d ∈ (p.followCall (DispatchIndex.ofStore s) caller edge).diagnostics ↔ d ∈ p.diagnostics ∨
      ¬ s.program.Resolves (Store.idCall edge) ∧ d = .unresolvedEdge (s.shownName caller)
        (s.shownName edge.callee) edge.kind .noDispatchEntry := by
  rw [followCall, diagnostics_foldl_reach, ← resolved_targets_ofStore hs p.store]
  dsimp only
  split
  · simp [*]
  · simp [*, Diagnostic.mem_addTo, hp.shownName]

lemma mem_diagnostics_foldl_followCall (hs : s.WellFormed) (hp : s.Raises p.store)
    (edges : List CallEdge) :
    d ∈ (edges.foldl (followCall (DispatchIndex.ofStore s) caller) p).diagnostics ↔
      d ∈ p.diagnostics ∨ ∃ edge ∈ edges, ¬ s.program.Resolves (Store.idCall edge) ∧
        d = .unresolvedEdge (s.shownName caller) (s.shownName edge.callee) edge.kind
          .noDispatchEntry := by
  induction edges generalizing p with
  | nil => simp
  | cons edge edges ih =>
    have hraised := hp.trans (marks_followCall hs hp.types caller edge).raises
    rw [List.foldl_cons, ih hraised, mem_diagnostics_followCall hs hp, or_assoc]
    simp only [List.mem_cons, exists_eq_or_imp]

lemma reportsFrom_named_iff (hs : s.Faithful) {f : FunctionSummary}
    (hf : s.function? caller = some f) : s.named.ReportsFrom (s.shownName caller) d ↔
      ∃ edge ∈ f.calls, ¬ s.program.Resolves (Store.idCall edge) ∧
        d = .unresolvedEdge (s.shownName caller) (s.shownName edge.callee) edge.kind
          .noDispatchEntry := by
  have hresolves : ∀ edge ∈ f.calls, s.named.Resolves (s.namedCall edge) ↔
      s.program.Resolves (Store.idCall edge) := fun edge hedge =>
    hs.resolves_named_iff (hs.wellFormed.contains_callee hf hedge)
  constructor
  · rintro ⟨F, hF, call, hcall, hnot, rfl⟩
    rw [hs.functions_named_eq hf, Option.some.injEq] at hF
    subst hF
    obtain ⟨edge, hedge, rfl⟩ := List.mem_map.mp hcall
    exact ⟨edge, hedge, (hresolves edge hedge).not.mp hnot, rfl⟩
  · rintro ⟨edge, hedge, hnot, rfl⟩
    exact ⟨s.namedFunction f, hs.functions_named_eq hf, s.namedCall edge,
      List.mem_map_of_mem hedge, (hresolves edge hedge).not.mpr hnot, rfl⟩

/-- Following a function reports its calls without an entry. -/
lemma mem_diagnostics_follow (hs : s.Faithful) (hp : s.Raises p.store) (caller : SymbolId) :
    d ∈ (p.follow (DispatchIndex.ofStore s) caller).diagnostics ↔
      d ∈ p.diagnostics ∨ s.definesFunction caller = true ∧
        s.named.ReportsFrom (s.shownName caller) d := by
  rw [follow, ← hp.definesFunction, Store.definesFunction_iff]
  split
  · rename_i hnone
    simp [hnone]
  · rename_i f' hf'
    obtain ⟨f, hf, hraised⟩ := hp.exists_function hf'
    have hcalls : f'.calls = f.calls := by
      rcases hraised with rfl | rfl
      · rfl
      · rfl
    rw [mem_diagnostics_foldl_followCall hs.wellFormed hp, hcalls, reportsFrom_named_iff hs hf]
    simp [hf']

/-! ### What the spread reports -/

/-- How far the reports have come over a store, since the spread began with some. -/
structure Reports (s : Store) (initial : List Diagnostic) (p : Spread) : Prop where
  sound : ∀ d ∈ p.diagnostics, d ∈ initial ∨
    ∃ id, p.store.isLive id = true ∧ s.named.ReportsFrom (s.shownName id) d
  initial : ∀ d ∈ initial, d ∈ p.diagnostics
  followed : ∀ id, p.store.isLive id = true → id ∉ p.queue →
    ∀ d, s.named.ReportsFrom (s.shownName id) d → d ∈ p.diagnostics

lemma Reports.follow (hs : s.Faithful) {initial : List Diagnostic} (htracks : Tracks s p)
    (h : Reports s initial p) {queue : List SymbolId} (hqueue : p.queue = caller :: queue) :
    Reports s initial (({ p with queue } : Spread).follow (DispatchIndex.ofStore s) caller) := by
  have hmarks := marks_follow hs.wellFormed (p := { p with queue }) htracks.raises caller
  have hmem : ∀ d, d ∈ _ ↔ _ := fun d =>
    mem_diagnostics_follow (d := d) (p := { p with queue }) hs htracks.raises caller
  generalize ({ p with queue } : Spread).follow (DispatchIndex.ofStore s) caller = p' at hmarks hmem
  have hcaller : p.store.isLive caller = true :=
    htracks.queued caller (hqueue ▸ List.mem_cons_self)
  have hdef : s.definesFunction caller = true :=
    (htracks.raises.definesFunction caller).symm.trans (Store.definesFunction_of_isLive hcaller)
  refine ⟨?_, fun d hd => (hmem d).mpr (.inl (h.initial d hd)), ?_⟩
  · intro d hd
    rcases (hmem d).mp hd with hold | ⟨-, hnew⟩
    · refine (h.sound d hold).imp_right ?_
      rintro ⟨id, hid, hreports⟩
      exact ⟨id, hmarks.raises.isLive hid, hreports⟩
    · exact .inr ⟨caller, hmarks.raises.isLive hcaller, hnew⟩
  · intro id hid hnot d hd
    rcases hmarks.eq_or_not_queued hqueue hid hnot with rfl | ⟨hold, hnot⟩
    · exact (hmem d).mpr (.inr ⟨hdef, hd⟩)
    · exact (hmem d).mpr (.inl (h.followed id hold hnot d hd))

lemma Reports.run (hs : s.Faithful) {initial : List Diagnostic} (htracks : Tracks s p)
    (h : Reports s initial p) : Reports s initial (p.run (DispatchIndex.ofStore s)) := by
  fun_induction Spread.run (DispatchIndex.ofStore s) p with
  | case1 p hqueue => exact h
  | case2 p caller queue hqueue ih =>
    exact ih (htracks.follow hs.wellFormed hqueue) (h.follow hs htracks hqueue)

lemma diagnostics_start (s : Store) (trace : LivenessTrace) (diagnostics : List Diagnostic) :
    (start s trace diagnostics).diagnostics = diagnostics := by
  have hroots : ∀ (fs : List FunctionSummary) (p : Spread),
      (fs.foldl addRoot p).diagnostics = p.diagnostics := by
    intro fs
    induction fs with
    | nil => exact fun p => rfl
    | cons f fs ih => exact fun p => ih (p.addRoot f)
  exact hroots _ _

/-- At the start every live function waits. -/
lemma mem_queue_start (hs : s.WellFormed) {trace : LivenessTrace} {diagnostics : List Diagnostic}
    {id : SymbolId} (h : (start s trace diagnostics).store.isLive id = true) :
    id ∈ (start s trace diagnostics).queue := by
  obtain ⟨-, hlive, hqueue⟩ := foldl_addRoot (roots s) { store := s, trace, diagnostics }
  rw [start, hqueue, List.nil_append]
  rw [start, hlive] at h
  rcases h with h | ⟨h, -⟩
  · obtain ⟨f, hf, hlive⟩ := Store.isLive_iff.mp h
    exact (mem_roots hs).mpr ⟨f, hf, .inr hlive⟩
  · exact h

/-- Spreading liveness over a store makes the functions live that are reachable by name. -/
theorem named_ofStore (hs : s.Faithful) (trace : LivenessTrace) (diagnostics : List Diagnostic) :
    (ofStore s trace diagnostics).store.named = s.named.spread :=
  (raises_ofStore hs.wellFormed trace diagnostics).named_eq_spread hs fun _ =>
    isLive_ofStore_iff hs.wellFormed trace diagnostics

/-- What is reported besides are the calls without an entry of the functions reachable by name. -/
theorem mem_diagnostics_ofStore (hs : s.Faithful) (trace : LivenessTrace)
    (diagnostics : List Diagnostic) : d ∈ (ofStore s trace diagnostics).diagnostics ↔
      d ∈ diagnostics ∨ ∃ caller, s.named.Reachable caller ∧ s.named.ReportsFrom caller d := by
  have hstart := tracks_start hs.wellFormed trace diagnostics
  have hinitial : Reports s diagnostics (start s trace diagnostics) := by
    refine ⟨fun d hd => .inl ?_, fun d hd => ?_, ?_⟩
    · rwa [diagnostics_start] at hd
    · rwa [diagnostics_start]
    · intro id hid hnot
      exact absurd (mem_queue_start hs.wellFormed hid) hnot
  have hreports := hinitial.run hs hstart
  obtain ⟨-, hqueue⟩ := hstart.run hs.wellFormed
  have hlive : ∀ id, ((start s trace diagnostics).run (.ofStore s)).store.isLive id = true ↔
      s.Reachable id := fun id => isLive_ofStore_iff hs.wellFormed trace diagnostics
  constructor
  · intro hd
    refine (hreports.sound d hd).imp_right ?_
    rintro ⟨id, hid, hfrom⟩
    have hreach := (hlive id).mp hid
    exact ⟨s.shownName id,
      (hs.reachable_named_iff (hs.wellFormed.contains_reachable hreach)).mpr hreach, hfrom⟩
  · rintro (hd | ⟨caller, hreach, hfrom⟩)
    · exact hreports.initial d hd
    · obtain ⟨F, hF, -⟩ := id hfrom
      obtain ⟨id, f, hid, hf, -⟩ := Store.functions_named_eq_some_iff.mp hF
      have hname := Store.shownName_of_lookup hs.size_lt hid
      rw [← hname] at hreach hfrom
      have hreach := (hs.reachable_named_iff (hs.wellFormed.contains_function hf)).mp hreach
      exact hreports.followed id ((hlive id).mpr hreach) (hqueue ▸ List.not_mem_nil) d hfrom

end Spread

end LinkSummary
