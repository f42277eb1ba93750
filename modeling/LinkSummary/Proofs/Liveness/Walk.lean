import LinkSummary.Proofs.Liveness.Trace
import Mathlib.Data.List.Chain
import Mathlib.Data.List.Dedup
import Mathlib.Data.List.Perm.Subperm

/-!
# The longest way back

Reasons may be noted in any order, so that referrers form cycles or have no reason themselves. A
walk goes from each function to the referrer of its reason and repeats no function. However the
reasons were noted, the chain of a function is the longest of its walks, and each other walk is a
beginning of it.
-/

namespace LinkSummary.LivenessTrace

variable {t : LivenessTrace} {function id : SymbolId} {reason : LiveReason}
  {links links' : List (SymbolId × LiveReason)} {seen : List SymbolId} {fuel : Nat}

/-! ### Reasons noted in turn -/

/-- The trace after some reasons have been noted in turn. -/
def recordAll (records : List (SymbolId × LiveReason)) : LivenessTrace :=
  records.foldl (fun t r => t.record r.1 r.2) empty

lemma reason?_foldl_record (records : List (SymbolId × LiveReason)) (t : LivenessTrace)
    (id : SymbolId) : (records.foldl (fun t r => t.record r.1 r.2) t).reason? id =
      (t.reason? id).or (records.lookup id) := by
  induction records generalizing t with
  | nil => exact (Option.or_none).symm
  | cons r records ih =>
    rw [List.foldl_cons, ih, reason?_record, List.lookup_cons]
    by_cases h : id = r.1
    · rw [if_pos h, beq_iff_eq.mpr h]
      cases t.reason? id <;> rfl
    · rw [if_neg h, beq_eq_false_iff_ne.mpr h]

/-- Of the reasons noted for a function the first counts. -/
lemma reason?_recordAll (records : List (SymbolId × LiveReason)) (id : SymbolId) :
    (recordAll records).reason? id = records.lookup id := by
  rw [recordAll, reason?_foldl_record, reason?_empty, Option.none_or]

/-- Each function for which a reason was noted counts once. -/
lemma size_recordAll (records : List (SymbolId × LiveReason)) :
    (recordAll records).size = (records.map (·.1)).dedup.length := by
  have hmem : ∀ id, id ∈ (recordAll records).reasons.keys ↔ id ∈ (records.map (·.1)).dedup := by
    intro id
    rw [IdMap.mem_keys_iff, ← Option.isSome_iff_exists, ← reason?, reason?_recordAll,
      List.lookup_isSome_iff, List.mem_dedup, List.mem_map]
    simp only [beq_iff_eq, eq_comm (a := id)]
  have hperm := (List.perm_ext_iff_of_nodup (recordAll records).reasons.keys_nodup
    (List.nodup_dedup _)).mpr hmem
  rw [← hperm.length_eq, IdMap.keys, List.length_map]
  rfl

/-! ### Walks -/

/-- Links begin with a function, lead on from each function to the referrer of its reason, and
repeat no function. -/
structure Walk (t : LivenessTrace) (function : SymbolId) (links : List (SymbolId × LiveReason)) :
    Prop where
  start : ∀ link ∈ links.head?, link.1 = function
  reason : ∀ link ∈ links, t.reason? link.1 = some link.2
  follows : links.IsChain fun link next => link.2.referrer = some next.1
  nodup : (links.map (·.1)).Nodup

namespace Walk

lemma nil : t.Walk function [] := ⟨nofun, nofun, .nil, List.nodup_nil⟩

/-- After its first link a walk ends, or it goes on from the referrer. -/
lemma cons_iff : t.Walk function ((id, reason) :: links) ↔
    (id = function ∧ t.reason? function = some reason) ∧ function ∉ links.map (·.1) ∧
      (links = [] ∨ ∃ referrer, reason.referrer = some referrer ∧ t.Walk referrer links) := by
  constructor
  · rintro ⟨hstart, hreason, hfollows, hnodup⟩
    obtain rfl : id = function := hstart _ rfl
    rw [List.forall_mem_cons] at hreason
    rw [List.map_cons, List.nodup_cons] at hnodup
    refine ⟨⟨rfl, hreason.1⟩, hnodup.1, ?_⟩
    cases links with
    | nil => exact .inl rfl
    | cons next links =>
      obtain ⟨hnext, hfollows⟩ := List.isChain_cons_cons.mp hfollows
      exact .inr ⟨next.1, hnext, by simp, hreason.2, hfollows, hnodup.2⟩
  · rintro ⟨⟨rfl, hreason⟩, hnew, rfl | ⟨referrer, hreferrer, hrest⟩⟩
    · exact ⟨by simp, by simpa using hreason, .singleton _, by simp⟩
    · refine ⟨by simp, List.forall_mem_cons.mpr ⟨hreason, hrest.reason⟩, ?_, ?_⟩
      · cases links with
        | nil => exact .singleton _
        | cons next links =>
          exact .cons_cons (hreferrer.trans (congrArg some (hrest.start next rfl).symm))
            hrest.follows
      · rw [List.map_cons, List.nodup_cons]
        exact ⟨hnew, hrest.nodup⟩

/-- A walk has no more links than there are functions with a reason. -/
lemma length_le (h : t.Walk function links) : links.length ≤ t.size := by
  have hsub : links.map (·.1) ⊆ t.reasons.keys := by
    intro id hid
    obtain ⟨link, hlink, rfl⟩ := List.mem_map.mp hid
    exact IdMap.mem_keys_iff.mpr ⟨link.2, h.reason link hlink⟩
  have hle := (List.subperm_of_subset h.nodup hsub).length_le
  rwa [List.length_map, IdMap.keys, List.length_map] at hle

end Walk

/-! ### The chain is the longest walk -/

/-- A chain is a walk over functions that have not been seen. -/
lemma walk_chainFrom (t : LivenessTrace) (fuel : Nat) (seen : List SymbolId)
    (function : SymbolId) : t.Walk function (t.chainFrom fuel seen function) ∧
      ∀ id ∈ (t.chainFrom fuel seen function).map (·.1), id ∉ seen := by
  induction fuel generalizing seen function with
  | zero => exact ⟨.nil, fun _ h => absurd h List.not_mem_nil⟩
  | succ fuel ih =>
    rw [chainFrom]
    cases hreason : t.reason? function with
    | none => exact ⟨.nil, fun _ h => absurd h List.not_mem_nil⟩
    | some reason =>
      dsimp only
      split
      · exact ⟨.nil, fun _ h => absurd h List.not_mem_nil⟩
      rename_i hnew
      rw [Walk.cons_iff, List.map_cons, List.forall_mem_cons]
      cases hreferrer : reason.referrer with
      | none =>
        exact ⟨⟨⟨rfl, hreason⟩, List.not_mem_nil, .inl rfl⟩, hnew,
          fun _ h => absurd h List.not_mem_nil⟩
      | some referrer =>
        -- the function is seen from now on
        obtain ⟨hwalk, hunseen⟩ := ih (function :: seen) referrer
        have hself : function ∉ (t.chainFrom fuel (function :: seen) referrer).map (·.1) :=
          fun hmem => hunseen function hmem List.mem_cons_self
        exact ⟨⟨⟨rfl, hreason⟩, hself, .inr ⟨referrer, rfl, hwalk⟩⟩, hnew,
          fun id hid hmem => hunseen id hid (List.mem_cons_of_mem function hmem)⟩

/-- A walk over functions not seen is a beginning of the chain, if that may be so long. -/
lemma Walk.prefix_chainFrom (h : t.Walk function links) (hseen : ∀ id ∈ links.map (·.1), id ∉ seen)
    (hfuel : links.length ≤ fuel) : links <+: t.chainFrom fuel seen function := by
  induction links generalizing function seen fuel with
  | nil => exact List.nil_prefix
  | cons link links ih =>
    obtain ⟨id, reason⟩ := link
    obtain ⟨⟨rfl, hreason⟩, hnew, hrest⟩ := Walk.cons_iff.mp h
    rw [List.map_cons, List.forall_mem_cons] at hseen
    cases fuel with
    | zero => cases hfuel
    | succ fuel =>
      rw [chainFrom, hreason]
      dsimp only
      rw [if_neg hseen.1, List.cons_prefix_cons]
      refine ⟨rfl, ?_⟩
      rcases hrest with rfl | ⟨referrer, hreferrer, hwalk⟩
      · exact List.nil_prefix
      · rw [hreferrer]
        refine ih hwalk ?_ (Nat.le_of_succ_le_succ hfuel)
        intro x hx hmem
        rcases List.mem_cons.mp hmem with rfl | hmem
        · exact hnew hx
        · exact hseen.2 x hx hmem

/-- A chain that may be as long as there are reasons is a walk, and each walk is a beginning
of it. -/
lemma chainFrom_spec (hfuel : t.size ≤ fuel) (function : SymbolId) :
    t.Walk function (t.chainFrom fuel [] function) ∧
      ∀ links, t.Walk function links → links <+: t.chainFrom fuel [] function :=
  ⟨(walk_chainFrom t fuel [] function).1,
    fun _ h => h.prefix_chainFrom (fun _ _ => List.not_mem_nil) (Nat.le_trans h.length_le hfuel)⟩

/-- More rounds than there are reasons add no link. -/
lemma chainFrom_eq_chain (hfuel : t.size ≤ fuel) (function : SymbolId) :
    t.chainFrom fuel [] function = t.chain function := by
  obtain ⟨hwalk, hlongest⟩ := chainFrom_spec hfuel function
  obtain ⟨hwalk', hlongest'⟩ := chainFrom_spec (t := t) (Nat.le_refl _) function
  have hprefix := hlongest' _ hwalk
  have hlen := (hlongest _ hwalk').length_le
  exact hprefix.eq_of_length (Nat.le_antisymm hprefix.length_le hlen)

/-- A walk goes on to a referrer that has a reason and is not among its functions. -/
lemma Walk.concat {link : SymbolId × LiveReason} {referrer : SymbolId}
    (h : t.Walk function links) (hlast : links.getLast? = some link)
    (hreferrer : link.2.referrer = some referrer) (hreason : t.reason? referrer = some reason)
    (hnew : referrer ∉ links.map (·.1)) : t.Walk function (links ++ [(referrer, reason)]) where
  start := by
    have hne : links ≠ [] := by
      rintro rfl
      cases hlast
    rw [List.head?_append_of_ne_nil _ hne]
    exact h.start
  reason := List.forall_mem_append.mpr ⟨h.reason, List.forall_mem_singleton.mpr hreason⟩
  follows := by
    refine List.isChain_append.mpr ⟨h.follows, .singleton _, ?_⟩
    intro last hlast' next hnext
    rw [hlast, Option.mem_def, Option.some.injEq] at hlast'
    rw [List.head?_cons, Option.mem_def, Option.some.injEq] at hnext
    rw [← hlast', ← hnext, hreferrer]
  nodup := by
    rw [List.map_append, List.map_singleton, ← List.concat_eq_append, List.nodup_concat]
    exact ⟨hnew, h.nodup⟩

/-- Why links end: the function has no reason; or the referrer of the last link, if there is one,
has none or is among the functions of the links. -/
def EndsAt (t : LivenessTrace) (function : SymbolId) (links : List (SymbolId × LiveReason)) :
    Prop :=
  match links.getLast? with
  | none => t.reason? function = none
  | some link => ∀ referrer, link.2.referrer = some referrer →
    t.reason? referrer = none ∨ referrer ∈ links.map (·.1)

/-- The longest walk of a function. -/
structure IsLongestWalk (t : LivenessTrace) (function : SymbolId)
    (links : List (SymbolId × LiveReason)) : Prop where
  walk : t.Walk function links
  prefix_of_walk : ∀ others, t.Walk function others → others <+: links
  endsAt : t.EndsAt function links
  length_le : links.length ≤ t.size

/-- What no walk goes beyond ends for one of the reasons. -/
lemma Walk.endsAt (h : t.Walk function links)
    (hlongest : ∀ others, t.Walk function others → others <+: links) :
    t.EndsAt function links := by
  rw [EndsAt]
  cases hlast : links.getLast? with
  | none =>
    rw [List.getLast?_eq_none_iff] at hlast
    subst hlast
    rw [Option.eq_none_iff_forall_ne_some]
    intro reason hreason
    have hone : t.Walk function [(function, reason)] :=
      Walk.cons_iff.mpr ⟨⟨rfl, hreason⟩, List.not_mem_nil, .inl rfl⟩
    exact absurd (List.prefix_nil.mp (hlongest _ hone)) (List.cons_ne_nil _ _)
  | some link =>
    intro referrer hreferrer
    by_contra! hon
    obtain ⟨hsome, hnew⟩ := hon
    obtain ⟨reason, hreason⟩ := Option.ne_none_iff_exists'.mp hsome
    have hlen := (hlongest _ (h.concat hlast hreferrer hreason hnew)).length_le
    rw [List.length_append, List.length_singleton] at hlen
    omega

/-- However reasons have been noted, the first of each function counts, the chain of a function is
its longest walk, and to look for links longer than there are reasons adds none. -/
theorem isLongestWalk_chain_recordAll (records : List (SymbolId × LiveReason))
    (function : SymbolId) :
    let t := recordAll records
    (∀ id, t.reason? id = records.lookup id) ∧
      t.size = (records.map (·.1)).dedup.length ∧
      t.IsLongestWalk function (t.chain function) ∧
      ∀ fuel, t.size ≤ fuel → t.chainFrom fuel [] function = t.chain function := by
  intro t
  obtain ⟨hwalk, hlongest⟩ := chainFrom_spec (t := t) (Nat.le_refl _) function
  exact ⟨reason?_recordAll records, size_recordAll records,
    ⟨hwalk, hlongest, hwalk.endsAt hlongest, hwalk.length_le⟩,
    fun _ hfuel => chainFrom_eq_chain hfuel function⟩

/-- Two functions are each other's referrer, and a third calls itself. -/
example :
    let t := recordAll [(⟨1⟩, .staticRef ⟨2⟩), (⟨2⟩, .indirectRef ⟨1⟩), (⟨1⟩, .preserved),
      (⟨3⟩, .staticRef ⟨3⟩)]
    t.chain ⟨1⟩ = [(⟨1⟩, .staticRef ⟨2⟩), (⟨2⟩, .indirectRef ⟨1⟩)] ∧
      t.chain ⟨3⟩ = [(⟨3⟩, .staticRef ⟨3⟩)] ∧ t.chain ⟨4⟩ = [] := by
  decide

end LinkSummary.LivenessTrace
