import Mathlib.Algebra.BigOperators.Group.Finset.Basic
import Mathlib.Algebra.Order.BigOperators.Group.Finset
import Mathlib.Algebra.Order.Ring.Nat
import Mathlib.Data.Nat.Find

/-!
# The lengths of tables, round after round

Only the lengths of vtables decide whether rounds of inheritance end. In a round each table shorter
than its base's lacks slots, and as many are added to the table filed under the id of its type,
which may be another or none. If at some time no table is short, none has become longer than the
longest was, and each round before has filled slots; so there have been no more rounds than slots
were free.
-/

namespace LinkSummary

/-- The lengths of tables before each round. A table is known by its key; it has a base, and an id
under which its missing slots are filed. -/
structure TableLengths (ι : Type) [DecidableEq ι] where
  keys : Finset ι
  base : ι → Option ι
  id : ι → ι
  length : ℕ → ι → ℕ
  base_mem : ∀ {k b}, base k = some b → b ∈ keys
  length_succ : ∀ n, ∀ k ∈ keys, length (n + 1) k = length n k +
    ∑ j ∈ keys with id j = k, (base j).elim 0 fun b => length n b - length n j

namespace TableLengths

variable {ι : Type} [DecidableEq ι] (T : TableLengths ι) {m n N : ℕ} {b i j k : ι}

/-- How many slots a table lacks of its base's. -/
def missing (n : ℕ) (k : ι) : ℕ := (T.base k).elim 0 fun b => T.length n b - T.length n k

/-- No table is short. -/
def Settled (n : ℕ) : Prop := ∀ k ∈ T.keys, T.missing n k = 0

/-- How many slots there are. -/
def total (n : ℕ) : ℕ := ∑ k ∈ T.keys, T.length n k

variable {T}

lemma missing_eq (h : T.base k = some b) : T.missing n k = T.length n b - T.length n k := by
  rw [missing, h, Option.elim_some]

lemma exists_base_of_missing (h : 0 < T.missing n k) :
    ∃ b, T.base k = some b ∧ T.length n b = T.length n k + T.missing n k := by
  cases hb : T.base k with
  | none =>
    rw [missing, hb] at h
    cases h
  | some b =>
    refine ⟨b, rfl, ?_⟩
    rw [missing_eq hb] at h ⊢
    omega

/-! ### A round -/

lemma length_succ_eq (n : ℕ) (hk : k ∈ T.keys) :
    T.length (n + 1) k = T.length n k + ∑ j ∈ T.keys with T.id j = k, T.missing n j :=
  T.length_succ n k hk

lemma length_mono (hk : k ∈ T.keys) (h : m ≤ n) : T.length m k ≤ T.length n k := by
  induction n, h using Nat.le_induction with
  | base => exact le_refl _
  | succ n _ ih =>
    rw [length_succ_eq n hk]
    exact ih.trans (Nat.le_add_right _ _)

/-- What a table lacks is added under its id. -/
lemma length_add_missing_le (hi : i ∈ T.keys) (hid : T.id i ∈ T.keys) :
    T.length n (T.id i) + T.missing n i ≤ T.length (n + 1) (T.id i) := by
  rw [length_succ_eq n hid]
  apply Nat.add_le_add_left
  exact Finset.single_le_sum (f := T.missing n) (fun _ _ => Nat.zero_le _)
    (Finset.mem_filter.mpr ⟨hi, rfl⟩)

/-- A table that becomes longer does so by what a table with its key as id lacks. -/
lemma exists_missing_of_lt (hk : k ∈ T.keys) (h : T.length n k < T.length (n + 1) k) :
    ∃ i ∈ T.keys, T.id i = k ∧ 0 < T.missing n i := by
  by_contra! hnone
  rw [length_succ_eq n hk, Finset.sum_eq_zero, Nat.add_zero] at h
  · exact lt_irrefl _ h
  · intro i hi
    obtain ⟨hi, hid⟩ := Finset.mem_filter.mp hi
    exact Nat.le_zero.mp (hnone i hi hid)

/-- A table to which only its own missing slots are added becomes as long as its base. -/
lemma exists_base_of_own (hk : k ∈ T.keys) (hlt : T.length n k < T.length (n + 1) k)
    (hown : ∀ i ∈ T.keys, T.id i = k → 0 < T.missing n i → i = k) :
    ∃ b, T.base k = some b ∧ T.length n b = T.length (n + 1) k := by
  obtain ⟨i, hi, hid, hmissing⟩ := exists_missing_of_lt hk hlt
  obtain rfl := hown i hi hid hmissing
  obtain ⟨b, hb, hlonger⟩ := exists_base_of_missing hmissing
  refine ⟨b, hb, ?_⟩
  rw [hlonger, length_succ_eq n hk, Nat.add_left_cancel_iff, eq_comm]
  refine Finset.sum_eq_single_of_mem i (Finset.mem_filter.mpr ⟨hi, hid⟩) ?_
  intro j hj hne
  obtain ⟨hj, hid⟩ := Finset.mem_filter.mp hj
  by_contra hpos
  exact hne (hown j hj hid (Nat.pos_of_ne_zero hpos))

/-- A round without a short table changes nothing. -/
lemma Settled.length_succ (h : T.Settled n) (hk : k ∈ T.keys) :
    T.length (n + 1) k = T.length n k := by
  rw [length_succ_eq n hk, Finset.sum_eq_zero, Nat.add_zero]
  exact fun j hj => h j (Finset.mem_filter.mp hj).1

lemma Settled.mono (h : T.Settled m) (hmn : m ≤ n) : T.Settled n := by
  induction n, hmn using Nat.le_induction with
  | base => exact h
  | succ n _ ih =>
    intro k hk
    cases hb : T.base k with
    | none => rw [missing, hb, Option.elim_none]
    | some b =>
      have hdone := ih k hk
      rw [missing_eq hb] at hdone ⊢
      rw [ih.length_succ hk, ih.length_succ (T.base_mem hb), hdone]

lemma exists_missing_of_not_settled (h : ¬ T.Settled n) : ∃ i ∈ T.keys, 0 < T.missing n i := by
  by_contra! hnone
  exact h fun i hi => Nat.le_zero.mp (hnone i hi)

/-- A short table whose id is a key makes for more slots. -/
lemma total_lt_of_missing (hi : i ∈ T.keys) (hid : T.id i ∈ T.keys) (h : 0 < T.missing n i) :
    T.total n < T.total (n + 1) := by
  have hadded := length_add_missing_le (n := n) hi hid
  refine Finset.sum_lt_sum (fun k hk => length_mono hk (Nat.le_add_right n 1)) ⟨T.id i, hid, ?_⟩
  omega

lemma total_le {longest : ℕ} (h : ∀ k ∈ T.keys, T.length n k ≤ longest) :
    T.total n ≤ T.keys.card * longest := by
  simpa [total] using Finset.sum_le_card_nsmul T.keys (T.length n) longest h

/-- Slots cannot grow in number for ever below a bound. -/
lemma exists_settled_of_growth {bound : ℕ}
    (hgrowth : ∀ n, T.Settled n ∨ T.total n < T.total (n + 1))
    (hbound : ∀ n, T.total n ≤ bound) : ∃ n, T.Settled n := by
  by_contra! hnone
  have hle : ∀ n, n ≤ T.total n := by
    intro n
    induction n with
    | zero => exact Nat.zero_le _
    | succ n ih =>
      have hlt := (hgrowth n).resolve_left (hnone n)
      omega
  have habove := hle (bound + 1)
  have hbelow := hbound (bound + 1)
  omega

/-! ### Tables filed astray -/

/-- The tables that are short before some of the first rounds and whose slots go elsewhere. -/
def astray (T : TableLengths ι) (N : ℕ) : Finset ι :=
  {k ∈ T.keys | T.id k ≠ k ∧ ∃ n < N, 0 < T.missing n k}

/-- The last of the first rounds before which a table is short. -/
def last (T : TableLengths ι) (N : ℕ) (k : ι) : ℕ :=
  Nat.findGreatest (fun n => n < N ∧ 0 < T.missing n k) N

lemma mem_astray : k ∈ T.astray N ↔ k ∈ T.keys ∧ T.id k ≠ k ∧ ∃ n < N, 0 < T.missing n k :=
  Finset.mem_filter

lemma last_spec (hk : k ∈ T.astray N) : T.last N k < N ∧ 0 < T.missing (T.last N k) k := by
  obtain ⟨-, -, n, hn, hmissing⟩ := mem_astray.mp hk
  exact Nat.findGreatest_spec (P := fun n => n < N ∧ 0 < T.missing n k) hn.le ⟨hn, hmissing⟩

lemma le_last (hn : n < N) (h : 0 < T.missing n k) : n ≤ T.last N k :=
  Nat.le_findGreatest hn.le ⟨hn, h⟩

lemma missing_of_last_lt (hN : T.Settled N) (hk : k ∈ T.keys) (h : T.last N k < n) (hn : n ≤ N) :
    T.missing n k = 0 := by
  rcases hn.lt_or_eq with hn | rfl
  · by_contra hpos
    exact absurd (le_last hn (Nat.pos_of_ne_zero hpos)) (not_le.mpr h)
  · exact hN k hk

/-- A table that is short for the last time becomes as long as its base, which needs another table
that lacks slots. -/
lemma exists_astray_of_astray (hN : T.Settled N) (hk : k ∈ T.astray N) :
    ∃ i ∈ T.astray N, T.id i = k ∧ 0 < T.missing (T.last N k) i := by
  obtain ⟨hlast, hshort⟩ := last_spec hk
  obtain ⟨hkeys, hid, -⟩ := mem_astray.mp hk
  obtain ⟨b, hb, hlonger⟩ := exists_base_of_missing hshort
  have hdone := missing_of_last_lt hN hkeys (Nat.lt_add_one _) hlast
  have hmono := length_mono (T.base_mem hb) (Nat.le_add_right (T.last N k) 1)
  rw [missing_eq hb] at hdone
  obtain ⟨i, hi, rfl, hmissing⟩ := exists_missing_of_lt (n := T.last N k) hkeys (by omega)
  refine ⟨i, mem_astray.mpr ⟨hi, fun heq => hid ?_, _, hlast, hmissing⟩, rfl, hmissing⟩
  rw [heq, heq]

/-- The tables filed astray are filed under the keys of each other. -/
lemma image_id_astray (hN : T.Settled N) : (T.astray N).image T.id = T.astray N := by
  have hcover : T.astray N ⊆ (T.astray N).image T.id := by
    intro k hk
    obtain ⟨i, hi, hid, -⟩ := exists_astray_of_astray hN hk
    exact Finset.mem_image.mpr ⟨i, hi, hid⟩
  exact (Finset.eq_of_subset_of_card_le hcover Finset.card_image_le).symm

lemma injOn_id_astray (hN : T.Settled N) : Set.InjOn T.id (T.astray N) := by
  rw [← Finset.card_image_iff, image_id_astray hN]

lemma id_mem_astray (hN : T.Settled N) (hi : i ∈ T.astray N) : T.id i ∈ T.astray N := by
  rw [← image_id_astray hN]
  exact Finset.mem_image_of_mem _ hi

/-- What does not grow from a table to that under its id is the same for both, for in the end one
comes round to the first. -/
lemma eq_of_le_id {f : ι → ℕ} (hN : T.Settled N) (h : ∀ i ∈ T.astray N, f (T.id i) ≤ f i) :
    ∀ i ∈ T.astray N, f (T.id i) = f i := by
  rw [← Finset.sum_eq_sum_iff_of_le h]
  conv_rhs => rw [← image_id_astray hN, Finset.sum_image (injOn_id_astray hN)]

/-- Only one table lacks slots that are added to a table filed astray. -/
lemma missing_last_id (hN : T.Settled N) (hi : i ∈ T.astray N) :
    0 < T.missing (T.last N (T.id i)) i := by
  obtain ⟨j, hj, hid, hmissing⟩ := exists_astray_of_astray hN (id_mem_astray hN hi)
  rwa [injOn_id_astray hN hj hi hid] at hmissing

lemma last_id (hN : T.Settled N) (hi : i ∈ T.astray N) : T.last N (T.id i) = T.last N i := by
  refine eq_of_le_id hN (fun i hi => ?_) i hi
  exact le_last (last_spec (id_mem_astray hN hi)).1 (missing_last_id hN hi)

lemma length_succ_id (hN : T.Settled N) (hi : i ∈ T.astray N) (hn : n < N) :
    T.length (n + 1) (T.id i) = T.length n (T.id i) + T.missing n i := by
  obtain ⟨hkeys, hid, -⟩ := mem_astray.mp (id_mem_astray hN hi)
  rw [length_succ_eq n hkeys, Nat.add_left_cancel_iff]
  refine Finset.sum_eq_single_of_mem i (Finset.mem_filter.mpr ⟨(mem_astray.mp hi).1, rfl⟩) ?_
  intro j hj hne
  obtain ⟨hj, heq⟩ := Finset.mem_filter.mp hj
  by_contra hpos
  refine hne (injOn_id_astray hN (mem_astray.mpr ⟨hj, fun hself => hid ?_, n, hn, ?_⟩) hi heq)
  · rw [← heq]
    exact congrArg T.id hself
  · exact Nat.pos_of_ne_zero hpos

/-- When they are short for the last time, tables filed astray lack equally many slots. -/
lemma missing_last (hN : T.Settled N) (hi : i ∈ T.astray N) :
    T.missing (T.last N (T.id i)) (T.id i) = T.missing (T.last N i) i := by
  refine eq_of_le_id (f := fun k => T.missing (T.last N k) k) hN (fun i hi => ?_) i hi
  have hk := id_mem_astray hN hi
  obtain ⟨hlast, hshort⟩ := last_spec hk
  obtain ⟨b, hb, hlonger⟩ := exists_base_of_missing hshort
  have hdone := missing_of_last_lt hN (mem_astray.mp hk).1 (Nat.lt_add_one _) hlast
  have hmono := length_mono (T.base_mem hb) (Nat.le_add_right (T.last N (T.id i)) 1)
  have hgrown := length_succ_id hN hi hlast
  rw [missing_eq hb] at hdone
  rw [last_id hN hi] at *
  omega

/-- From then on a table filed astray is as long as its base was. -/
lemma length_of_last_lt (hN : T.Settled N) (hi : i ∈ T.astray N) (hb : T.base (T.id i) = some b)
    (h : T.last N (T.id i) < n) (hn : n ≤ N) :
    T.length n (T.id i) = T.length (T.last N (T.id i)) b := by
  induction n, Nat.succ_le_of_lt h using Nat.le_induction with
  | base =>
    have hk := id_mem_astray hN hi
    obtain ⟨b', hb', hlonger⟩ := exists_base_of_missing (last_spec hk).2
    rw [hb, Option.some.injEq] at hb'
    rw [Nat.succ_eq_add_one, length_succ_id hN hi (last_spec hk).1, hb', hlonger,
      missing_last hN hi, last_id hN hi]
  | succ n hle ih =>
    rw [length_succ_id hN hi hn, ih hle (by omega),
      missing_of_last_lt hN (mem_astray.mp hi).1 (last_id hN hi ▸ hle) (by omega), Nat.add_zero]

/-! ### The rounds end in time -/

/-- A table that takes its last length in a round has that of its base. -/
lemma exists_base_of_lt (hN : T.Settled N) (hk : k ∈ T.keys) (hn : n < N)
    (hlt : T.length n k < T.length (n + 1) k) (hlast : T.length (n + 1) k = T.length N k) :
    ∃ b, T.base k = some b ∧ T.length n b = T.length N k := by
  by_cases hself : ∃ i ∈ T.astray N, T.id i = k
  · -- the base had that length when the table was short for the last time
    obtain ⟨i, hi, rfl⟩ := hself
    have hspec := last_spec (id_mem_astray hN hi)
    obtain ⟨b, hb, hlonger⟩ := exists_base_of_missing hspec.2
    have heq : n = T.last N (T.id i) := by
      rcases Nat.lt_trichotomy n (T.last N (T.id i)) with h | h | h
      · have hle : T.length (n + 1) (T.id i) ≤ _ := length_mono hk h
        have hmore := length_of_last_lt hN hi hb hspec.1 (le_refl N)
        omega
      · exact h
      · have hbefore := length_of_last_lt hN hi hb h hn.le
        have hafter := length_of_last_lt hN hi hb (h.trans (Nat.lt_add_one n)) hn
        omega
    exact ⟨b, hb, heq ▸ (length_of_last_lt hN hi hb hspec.1 (le_refl N)).symm⟩
  · -- only the table itself fills it
    have hown : ∀ i ∈ T.keys, T.id i = k → 0 < T.missing n i → i = k := by
      intro i hi hid hmissing
      by_contra hne
      refine hself ⟨i, mem_astray.mpr ⟨hi, fun h => hne ?_, n, hn, hmissing⟩, hid⟩
      rw [← hid, h]
    rw [← hlast]
    exact exists_base_of_own hk hlt hown

/-- Where the rounds end, no table has become longer than the longest was. -/
theorem length_le_of_settled {longest : ℕ} (hN : T.Settled N)
    (hlongest : ∀ k ∈ T.keys, T.length 0 k ≤ longest) (hn : n ≤ N) (hk : k ∈ T.keys) :
    T.length n k ≤ longest := by
  suffices hfinal : ∀ n ≤ N, ∀ k ∈ T.keys, T.length n k = T.length N k →
      T.length N k ≤ longest from
    (length_mono hk hn).trans (hfinal N (le_refl N) k hk rfl)
  intro n
  induction n with
  | zero => exact fun _ k hk heq => heq ▸ hlongest k hk
  | succ n ih =>
    intro hn k hk heq
    rcases (length_mono hk (Nat.le_add_right n 1)).eq_or_lt with hsame | hlt
    · exact ih (by omega) k hk (hsame.trans heq)
    · obtain ⟨b, hb, hlength⟩ := exists_base_of_lt hN hk hn hlt heq
      have hbase := hN k hk
      rw [missing_eq hb] at hbase
      have hmono := length_mono (T.base_mem hb) (show n ≤ N by omega)
      have hle := ih (by omega) b (T.base_mem hb) (by omega)
      omega

/-- Where the rounds end, the slots that a table lacked went to some table. -/
lemma id_mem_keys (hN : T.Settled N) (hi : i ∈ T.keys) (hn : n < N) (h : 0 < T.missing n i) :
    T.id i ∈ T.keys := by
  by_cases hself : T.id i = i
  · rwa [hself]
  · exact (mem_astray.mp (id_mem_astray hN (mem_astray.mpr ⟨hi, hself, n, hn, h⟩))).1

/-- Where the rounds end, each before with a short table has filled a slot. -/
theorem total_lt_of_settled (hN : T.Settled N) (hn : n < N) (hshort : ¬ T.Settled n) :
    T.total n < T.total (n + 1) := by
  obtain ⟨i, hi, hmissing⟩ := exists_missing_of_not_settled hshort
  exact total_lt_of_missing hi (id_mem_keys hN hi hn hmissing) hmissing

/-- If the rounds end, they end after as many as there are free slots. -/
theorem exists_settled_le {longest : ℕ} (hN : T.Settled N)
    (hlongest : ∀ k ∈ T.keys, T.length 0 k ≤ longest) :
    ∃ n ≤ T.keys.card * longest, T.Settled n ∧ ∀ m < n, ¬ T.Settled m := by
  classical
  have hex : ∃ n, T.Settled n := ⟨N, hN⟩
  have hfirst := Nat.find_spec hex
  refine ⟨Nat.find hex, ?_, hfirst, fun m hm => Nat.find_min hex hm⟩
  have hgrowth : ∀ n ≤ Nat.find hex, n ≤ T.total n := by
    intro n
    induction n with
    | zero => exact fun _ => Nat.zero_le _
    | succ n ih =>
      intro hn
      have hle := ih (by omega)
      have hlt := total_lt_of_settled hfirst hn (Nat.find_min hex hn)
      omega
  exact (hgrowth _ (le_refl _)).trans
    (total_le fun k hk => length_le_of_settled hfirst hlongest (le_refl _) hk)

/-- Where the rounds end, a table that is short at first and whose slots go elsewhere finds room for
them below the longest. -/
theorem length_id_add_missing_le {longest : ℕ} (hN : T.Settled N)
    (hlongest : ∀ k ∈ T.keys, T.length 0 k ≤ longest) (hi : i ∈ T.keys)
    (h : 0 < T.missing 0 i) : T.id i ∈ T.keys ∧
      T.length 0 (T.id i) + T.missing 0 i ≤ longest := by
  have hpos : 0 < N := by
    by_contra hzero
    obtain rfl := Nat.eq_zero_of_not_pos hzero
    exact absurd (hN i hi) h.ne'
  have hid := id_mem_keys hN hi hpos h
  exact ⟨hid, (length_add_missing_le hi hid).trans (length_le_of_settled hN hlongest hpos hid)⟩

/-! ### Short tables filed under their own keys -/

lemma length_le_of_filed {longest : ℕ} (hfiled : ∀ n, ∀ i ∈ T.keys, 0 < T.missing n i → T.id i = i)
    (hlongest : ∀ k ∈ T.keys, T.length 0 k ≤ longest) (n : ℕ) :
    ∀ k ∈ T.keys, T.length n k ≤ longest := by
  induction n with
  | zero => exact hlongest
  | succ n ih =>
    intro k hk
    rcases (length_mono hk (Nat.le_add_right n 1)).eq_or_lt with hsame | hlt
    · exact hsame ▸ ih k hk
    · obtain ⟨b, hb, hlength⟩ := exists_base_of_own hk hlt fun i hi hid hmissing =>
        (hfiled n i hi hmissing).symm.trans hid
      exact hlength ▸ ih b (T.base_mem hb)

/-- If no short table is filed astray, the rounds end. -/
theorem exists_settled_of_filed
    (hfiled : ∀ n, ∀ i ∈ T.keys, 0 < T.missing n i → T.id i = i) : ∃ n, T.Settled n := by
  have hlongest : ∀ k ∈ T.keys, T.length 0 k ≤ T.keys.sup (T.length 0) := fun k hk =>
    Finset.le_sup hk
  have hbound : ∀ n, T.total n ≤ T.keys.card * T.keys.sup (T.length 0) := fun n =>
    total_le (length_le_of_filed hfiled hlongest n)
  refine exists_settled_of_growth (fun n => ?_) hbound
  by_cases hsettled : T.Settled n
  · exact .inl hsettled
  · obtain ⟨i, hi, hmissing⟩ := exists_missing_of_not_settled hsettled
    exact .inr (total_lt_of_missing hi ((hfiled n i hi hmissing).symm ▸ hi) hmissing)

end TableLengths

end LinkSummary
