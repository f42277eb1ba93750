import LinkSummary.Liveness.Trace
import LinkSummary.Proofs.IdMap

/-!
# Chains of reasons

As long as a referrer is noted before the functions that it is the reason for, ranks can be given to
the functions of a trace so that every referrer has a smaller rank. Then the chain of a noted
function is never cut short: it goes from each function to its referrer, repeats none, and ends with
a function that has no referrer.
-/

namespace LinkSummary.LivenessTrace

variable {t : LivenessTrace} {function id referrer : SymbolId} {reason : LiveReason}
  {links : List (SymbolId × LiveReason)}

/-! ### Noting reasons -/

/-- The first reason counts. -/
lemma reason?_record (t : LivenessTrace) (function id : SymbolId) (reason : LiveReason) :
    (t.record function reason).reason? id =
      if id = function then some ((t.reason? id).getD reason) else t.reason? id := by
  rw [record]
  split
  · rename_i hold
    obtain ⟨old, hold⟩ := IdMap.contains_iff.mp hold
    split
    · rename_i heq
      subst heq
      rw [reason?, hold, Option.getD_some]
    · rfl
  · rename_i hnew
    rw [reason?, IdMap.get?_insert]
    split
    · rename_i heq
      subst heq
      rw [Bool.not_eq_true, IdMap.contains, Option.isSome_eq_false_iff, Option.isNone_iff_eq_none]
        at hnew
      rw [reason?, hnew, Option.getD_none]
    · rfl

lemma isSome_reason?_record (t : LivenessTrace) (function id : SymbolId) (reason : LiveReason) :
    ((t.record function reason).reason? id).isSome =
      (decide (id = function) || (t.reason? id).isSome) := by
  rw [reason?_record]
  split
  · rename_i heq
    rw [decide_eq_true heq, Option.isSome_some, Bool.true_or]
  · rename_i hne
    rw [decide_eq_false hne, Bool.false_or]

lemma size_record_of_none (h : t.reason? function = none) :
    (t.record function reason).size = t.size + 1 := by
  have hnew : t.reasons.contains function = false := by
    rw [IdMap.contains, ← reason?, h, Option.isSome_none]
  rw [record, hnew]
  exact IdMap.size_insert hnew

lemma record_of_isSome (h : (t.reason? function).isSome) : t.record function reason = t :=
  if_pos h

/-! ### Ranks -/

/-- The functions with a reason have ranks below their number, a referrer a smaller one. -/
structure RankedBy (t : LivenessTrace) (rank : SymbolId → Nat) : Prop where
  lt_size : ∀ id, (t.reason? id).isSome → rank id < t.size
  referrer : ∀ id reason referrer, t.reason? id = some reason → reason.referrer = some referrer →
    (t.reason? referrer).isSome ∧ rank referrer < rank id

/-- Referrers lead back in finitely many steps. -/
def Founded (t : LivenessTrace) : Prop := ∃ rank, t.RankedBy rank

lemma reason?_empty (id : SymbolId) : empty.reason? id = none := rfl

lemma founded_empty : empty.Founded :=
  ⟨fun _ => 0, nofun, nofun⟩

/-- A reason may be noted once its referrer is. -/
lemma Founded.record (h : t.Founded)
    (hreferrer : ∀ referrer, reason.referrer = some referrer → (t.reason? referrer).isSome) :
    (t.record function reason).Founded := by
  cases hold : t.reason? function with
  | some old =>
    rw [record_of_isSome (Option.isSome_of_eq_some hold)]
    exact h
  | none =>
    obtain ⟨rank, hlt, hless⟩ := h
    have hsize : (t.record function reason).size = t.size + 1 := size_record_of_none hold
    have hne : ∀ id, (t.reason? id).isSome → id ≠ function := by
      rintro id hid rfl
      rw [hold] at hid
      cases hid
    -- the new function gets the highest rank
    refine ⟨fun id => if id = function then t.size else rank id, ?_, ?_⟩
    · intro id hid
      rw [isSome_reason?_record] at hid
      rw [hsize]
      split
      · exact Nat.lt_succ_self _
      · rename_i hid'
        rw [decide_eq_false hid', Bool.false_or] at hid
        exact Nat.lt_succ_of_lt (hlt id hid)
    · intro id reason' referrer hid hreason'
      rw [reason?_record] at hid
      rw [isSome_reason?_record]
      split at hid
      · rename_i heq
        subst heq
        rw [hold, Option.getD_none, Option.some.injEq] at hid
        have hnoted := hreferrer referrer (hid ▸ hreason')
        rw [hnoted, Bool.or_true, if_neg (hne referrer hnoted), if_pos rfl]
        exact ⟨rfl, hlt referrer hnoted⟩
      · rename_i hne'
        obtain ⟨hnoted, hrank⟩ := hless id reason' referrer hid hreason'
        rw [hnoted, Bool.or_true, if_neg (hne referrer hnoted), if_neg hne']
        exact ⟨rfl, hrank⟩

/-! ### Chains -/

/-- Links go back from a function over referrers to one that has none. -/
inductive LeadsBack (t : LivenessTrace) : SymbolId → List (SymbolId × LiveReason) → Prop
  | root {id : SymbolId} {reason : LiveReason} :
    t.reason? id = some reason → reason.referrer = none → LeadsBack t id [(id, reason)]
  | link {id referrer : SymbolId} {reason : LiveReason} {links : List (SymbolId × LiveReason)} :
    t.reason? id = some reason → reason.referrer = some referrer → LeadsBack t referrer links →
      LeadsBack t id ((id, reason) :: links)

namespace LeadsBack

lemma exists_cons (h : t.LeadsBack id links) : ∃ reason rest, links = (id, reason) :: rest := by
  cases h with
  | root => exact ⟨_, _, rfl⟩
  | link => exact ⟨_, _, rfl⟩

lemma reason?_of_mem (h : t.LeadsBack id links) :
    ∀ link ∈ links, t.reason? link.1 = some link.2 := by
  induction h with
  | root hreason => exact List.forall_mem_singleton.mpr hreason
  | link hreason _ _ ih => exact List.forall_mem_cons.mpr ⟨hreason, ih⟩

/-- Each link is followed by its referrer. -/
lemma isChain (h : t.LeadsBack id links) :
    links.IsChain fun link next => link.2.referrer = some next.1 := by
  induction h with
  | root => exact .singleton _
  | link _ hreferrer hrest ih =>
    obtain ⟨reason, rest, rfl⟩ := hrest.exists_cons
    exact .cons_cons hreferrer ih

lemma exists_getLast? (h : t.LeadsBack id links) :
    ∃ link, links.getLast? = some link ∧ link.2.referrer = none := by
  induction h with
  | root _ hreferrer => exact ⟨_, rfl, hreferrer⟩
  | link _ _ hrest ih =>
    obtain ⟨reason, rest, rfl⟩ := hrest.exists_cons
    simpa using ih

/-- Ranks fall along the links, so no function comes twice. -/
lemma nodup {rank : SymbolId → Nat} (h : t.LeadsBack id links) (hrank : t.RankedBy rank) :
    (∀ link ∈ links, rank link.1 ≤ rank id) ∧ (links.map (·.1)).Nodup := by
  induction h with
  | root => simp
  | @link id referrer reason links hreason hreferrer _ ih =>
    have hlt := (hrank.referrer id reason referrer hreason hreferrer).2
    refine ⟨List.forall_mem_cons.mpr ⟨Nat.le_refl _, fun link hlink => ?_⟩, ?_⟩
    · exact Nat.le_trans (ih.1 link hlink) (Nat.le_of_lt hlt)
    · rw [List.map_cons, List.nodup_cons]
      refine ⟨fun hmem => ?_, ih.2⟩
      obtain ⟨link, hlink, heq⟩ := List.mem_map.mp hmem
      have hle := ih.1 link hlink
      rw [heq] at hle
      exact absurd hlt (Nat.not_lt.mpr hle)

end LeadsBack

/-- A chain is not cut short, if only it may have more links than the rank tells. -/
lemma leadsBack_chainFrom {rank : SymbolId → Nat} (hrank : t.RankedBy rank) (fuel : Nat)
    (seen : List SymbolId) (hid : t.reason? id = some reason) (hfuel : rank id < fuel)
    (hseen : ∀ x ∈ seen, rank id < rank x) : t.LeadsBack id (t.chainFrom fuel seen id) := by
  induction fuel generalizing seen id reason with
  | zero => cases hfuel
  | succ fuel ih =>
    have hnew : id ∉ seen := fun hmem => Nat.lt_irrefl _ (hseen id hmem)
    rw [chainFrom, hid]
    dsimp only
    rw [if_neg hnew]
    cases hreferrer : reason.referrer with
    | none => exact .root hid hreferrer
    | some referrer =>
      obtain ⟨hnoted, hlt⟩ := hrank.referrer id reason referrer hid hreferrer
      obtain ⟨reason', hreason'⟩ := Option.isSome_iff_exists.mp hnoted
      refine .link hid hreferrer (ih (id :: seen) hreason' (by omega) ?_)
      exact List.forall_mem_cons.mpr ⟨hlt, fun x hx => Nat.lt_trans hlt (hseen x hx)⟩

/-- The chain of a function with a reason goes back to a function without referrer. -/
theorem Founded.leadsBack_chain (h : t.Founded) (hid : (t.reason? id).isSome) :
    t.LeadsBack id (t.chain id) := by
  obtain ⟨rank, hrank⟩ := h
  obtain ⟨reason, hreason⟩ := Option.isSome_iff_exists.mp hid
  exact leadsBack_chainFrom hrank t.size [] hreason (hrank.lt_size id hid) (List.forall_mem_nil _)

lemma chain_eq_nil_of_none (h : t.reason? id = none) : t.chain id = [] := by
  rw [chain]
  cases t.size with
  | zero => rfl
  | succ fuel => rw [chainFrom, h]

lemma Founded.chain_eq_nil_iff (h : t.Founded) : t.chain id = [] ↔ t.reason? id = none := by
  refine ⟨fun hnil => ?_, chain_eq_nil_of_none⟩
  by_contra hsome
  have hback := h.leadsBack_chain (Option.isSome_iff_ne_none.mpr hsome)
  obtain ⟨reason, rest, hcons⟩ := hback.exists_cons
  rw [hnil] at hcons
  cases hcons

/-- There is only one way back. -/
lemma LeadsBack.unique {links' : List (SymbolId × LiveReason)} (h : t.LeadsBack id links)
    (h' : t.LeadsBack id links') : links = links' := by
  induction h generalizing links' with
  | root hreason hreferrer =>
    cases h' with
    | root hreason' =>
      rw [hreason, Option.some.injEq] at hreason'
      rw [hreason']
    | link hreason' hreferrer' =>
      rw [hreason, Option.some.injEq] at hreason'
      rw [← hreason', hreferrer] at hreferrer'
      cases hreferrer'
  | link hreason hreferrer _ ih =>
    cases h' with
    | root hreason' hreferrer' =>
      rw [hreason, Option.some.injEq] at hreason'
      rw [← hreason', hreferrer] at hreferrer'
      cases hreferrer'
    | link hreason' hreferrer' hrest' =>
      rw [hreason, Option.some.injEq] at hreason'
      subst hreason'
      rw [hreferrer, Option.some.injEq] at hreferrer'
      subst hreferrer'
      rw [ih hrest']

lemma Founded.chain_eq (h : t.Founded) (hback : t.LeadsBack id links) : t.chain id = links := by
  obtain ⟨reason, rest, rfl⟩ := hback.exists_cons
  have hid : (t.reason? id).isSome := by
    cases hback with
    | root hreason => exact Option.isSome_of_eq_some hreason
    | link hreason => exact Option.isSome_of_eq_some hreason
  exact (h.leadsBack_chain hid).unique hback

/-- Noting another reason leaves the links behind a function as they are. -/
lemma LeadsBack.record (h : t.LeadsBack id links) (function : SymbolId) (reason : LiveReason) :
    (t.record function reason).LeadsBack id links := by
  have hkept : ∀ {x r}, t.reason? x = some r → (t.record function reason).reason? x = some r := by
    intro x r hx
    rw [reason?_record, hx, Option.getD_some, ite_self]
  induction h with
  | root hreason hreferrer => exact .root (hkept hreason) hreferrer
  | link hreason hreferrer _ ih => exact .link (hkept hreason) hreferrer ih

lemma Founded.chain_record (h : t.Founded) (h' : (t.record function reason).Founded)
    (hid : (t.reason? id).isSome) : (t.record function reason).chain id = t.chain id :=
  h'.chain_eq ((h.leadsBack_chain hid).record function reason)

lemma Founded.length_chain_of_root (h : t.Founded) (hreason : t.reason? id = some reason)
    (hreferrer : reason.referrer = none) : (t.chain id).length = 1 := by
  rw [h.chain_eq (.root hreason hreferrer), List.length_singleton]

lemma Founded.length_chain_of_referrer (h : t.Founded) (hreason : t.reason? id = some reason)
    (hreferrer : reason.referrer = some referrer) (hnoted : (t.reason? referrer).isSome) :
    (t.chain id).length = (t.chain referrer).length + 1 := by
  rw [h.chain_eq (.link hreason hreferrer (h.leadsBack_chain hnoted)), List.length_cons]

/-! ### Texts -/

/-- The text for a dead function is given for defined functions without a chain only. -/
lemma explain_eq_dead_iff {s : Store} {name : String} :
    t.explain s name = s!"'{name}' is dead\n" ↔
      ∃ f, s.functionNamed? name = some f ∧ t.chain f.id = [] := by
  rw [explain]
  cases s.functionNamed? name with
  | none =>
    refine ⟨fun h => ?_, fun ⟨f, hf, _⟩ => by cases hf⟩
    change "no function named '" ++ name ++ "'\n" = "'" ++ name ++ "' is dead\n" at h
    have hchars := congrArg String.toList h
    simp [String.toList_append] at hchars
  | some f =>
    dsimp only
    split
    · rename_i hnil
      exact ⟨fun _ => ⟨f, rfl, hnil⟩, fun _ => rfl⟩
    · rename_i hchain
      refine ⟨fun h => ?_, ?_⟩
      · change "'" ++ name ++ "' is live:\n" ++ _ = "'" ++ name ++ "' is dead\n" at h
        have hchars := congrArg String.toList h
        simp [String.toList_append] at hchars
      · rintro ⟨f', hf', hnil⟩
        cases hf'
        exact absurd hnil hchain

end LinkSummary.LivenessTrace
