import LinkSummary.Store.Json
import Mathlib.Data.List.TakeWhile
import Mathlib.Data.Option.Basic
import Mathlib.Tactic.Common

/-!
# The text of flags

The text of flags is read as these flags, also when there are bits among them that have no name.
-/

namespace LinkSummary

/-! ### Numbers in base sixteen -/

namespace Json

lemma hexValue?_digitChar {d : Nat} (h : d < 16) : hexValue? d.digitChar = some d := by
  decide +revert

lemma exists_mapM_hexValue?_toDigits (n : Nat) : ∃ values,
    (Nat.toDigits 16 n).mapM hexValue? = some values ∧
      values.foldl (fun n d => n * 16 + d) 0 = n := by
  induction n using Nat.strongRecOn with
  | ind n ih =>
    rw [Nat.toDigits_eq_if (by decide)]
    split
    · rename_i hlt
      refine ⟨[n], ?_, by simp⟩
      rw [List.mapM_cons, hexValue?_digitChar hlt]
      rfl
    · obtain ⟨values, hvalues, hfold⟩ := ih (n / 16) (by omega)
      refine ⟨values ++ [n % 16], ?_, ?_⟩
      · rw [List.mapM_append, hvalues, List.mapM_cons, hexValue?_digitChar (by omega)]
        rfl
      · rw [List.foldl_append, hfold]
        simp only [List.foldl_cons, List.foldl_nil]
        omega

lemma exists_digitChar_of_mem_toDigits {n : Nat} {c : Char} (h : c ∈ Nat.toDigits 16 n) :
    ∃ d < 16, c = d.digitChar := by
  induction n using Nat.strongRecOn with
  | ind n ih =>
    rw [Nat.toDigits_eq_if (by decide)] at h
    split at h
    · rename_i hlt
      exact ⟨n, hlt, List.mem_singleton.mp h⟩
    · rcases List.mem_append.mp h with h | h
      · exact ih (n / 16) (by omega) h
      · exact ⟨n % 16, by omega, List.mem_singleton.mp h⟩

end Json

namespace FunctionFlags

/-! ### Pieces -/

variable {cs cs' : List Char}

lemma dropWhile_isSpace_eq_self (h : ∀ c ∈ cs, isSpace c = false) : cs.dropWhile isSpace = cs := by
  cases cs with
  | nil => rfl
  | cons c cs =>
    rw [List.dropWhile_cons, h c List.mem_cons_self]
    rfl

lemma trim_eq_self (h : ∀ c ∈ cs, isSpace c = false) : trim cs = cs := by
  rw [trim, dropWhile_isSpace_eq_self h, dropWhile_isSpace_eq_self, List.reverse_reverse]
  exact fun c hc => h c (List.mem_reverse.mp hc)

lemma trim_space_cons (cs : List Char) : trim (' ' :: cs) = trim cs := by
  rw [trim, trim, List.dropWhile_cons]
  rfl

lemma mem_dropWhile_isSpace {c : Char} (hc : c ∈ cs) (hspace : isSpace c = false) :
    c ∈ cs.dropWhile isSpace := by
  rw [← List.takeWhile_append_dropWhile (p := isSpace) (l := cs)] at hc
  refine (List.mem_append.mp hc).resolve_left fun htaken => ?_
  rw [List.mem_takeWhile_imp htaken] at hspace
  cases hspace

lemma mem_trim {c : Char} (hc : c ∈ cs) (hspace : isSpace c = false) : c ∈ trim cs := by
  rw [trim, List.mem_reverse]
  exact mem_dropWhile_isSpace (List.mem_reverse.mpr (mem_dropWhile_isSpace hc hspace)) hspace

/-- The piece for bits without a name. -/
def hexPiece (reserved : BitVec 29) : List Char :=
  '0' :: 'x' :: Nat.toDigits 16 (8 * reserved.toNat)

variable {reserved : BitVec 29}

lemma isSpace_of_mem_hexPiece {c : Char} (hc : c ∈ hexPiece reserved) :
    isSpace c = false ∧ c ≠ '|' := by
  have hdigit : ∀ d < 16, isSpace d.digitChar = false ∧ d.digitChar ≠ '|' := by decide
  rw [hexPiece, List.mem_cons, List.mem_cons] at hc
  obtain rfl | rfl | hc := hc
  · decide
  · decide
  · obtain ⟨d, hd, rfl⟩ := Json.exists_digitChar_of_mem_toDigits hc
    exact hdigit d hd

lemma ofBits_mul_eight (reserved : BitVec 29) :
    ofBits (UInt32.ofNat (8 * reserved.toNat)) = { reserved } := by
  have hbits := ofBits_bits { reserved }
  rw [bits] at hbits
  simpa using hbits

lemma ofPiece?_hexPiece (reserved : BitVec 29) :
    ofPiece? (hexPiece reserved) = some { reserved } := by
  obtain ⟨values, hvalues, hfold⟩ := Json.exists_mapM_hexValue?_toDigits (8 * reserved.toNat)
  have hlt : 8 * reserved.toNat < UInt32.size := by
    have := reserved.isLt
    change _ < 4294967296
    omega
  have hplus : (Nat.toDigits 16 (8 * reserved.toNat)).head? ≠ some '+' := by
    intro hhead
    obtain ⟨d, hd, heq⟩ := Json.exists_digitChar_of_mem_toDigits (List.mem_of_mem_head? hhead)
    revert d
    decide
  rw [ofPiece?, trim_eq_self fun c hc => (isSpace_of_mem_hexPiece hc).1, hexPiece]
  simp only [ofHex?, if_neg hplus, List.isEmpty_eq_false_iff.mpr Nat.toDigits_ne_nil,
    Bool.not_false, guard_true, hvalues, hfold, hlt, Option.pure_def, Option.bind_eq_bind,
    Option.bind_some, ofBits_mul_eight]

lemma ofPiece?_space_cons (cs : List Char) : ofPiece? (' ' :: cs) = ofPiece? cs := by
  rw [ofPiece?, ofPiece?, trim_space_cons]

/-! ### Texts -/

/-- Bits without a name join the others. -/
lemma union_reserved (live preserved fixedContents : Bool) (reserved : BitVec 29) :
    union { live, preserved, fixedContents } { reserved } =
      { live, preserved, fixedContents, reserved } := by
  have hnamed : live.toNat + 2 * preserved.toNat + 4 * fixedContents.toNat < 2 ^ 3 := by
    have hlive := Bool.toNat_le live
    have hpreserved := Bool.toNat_le preserved
    have hfixed := Bool.toNat_le fixedContents
    omega
  have hor := Nat.two_pow_add_eq_or_of_lt hnamed reserved.toNat
  have hbits : (bits { live, preserved, fixedContents } ||| bits { reserved }) =
      bits { live, preserved, fixedContents, reserved } := by
    rw [← UInt32.toNat_inj, UInt32.toNat_or, toNat_bits, toNat_bits, toNat_bits]
    have hzero : BitVec.toNat (0 : BitVec 29) = 0 := rfl
    simp only [hzero, Bool.toNat_false, Nat.mul_zero, Nat.add_zero, Nat.zero_add]
    rw [Nat.or_comm]
    exact hor.symm.trans (Nat.add_comm _ _)
  rw [union, hbits, ofBits_bits]

lemma isEmpty_trim_append_hexPiece (reserved : BitVec 29) (front : List Char) :
    (trim (front ++ hexPiece reserved)).isEmpty = false := by
  have hmem : '0' ∈ front ++ hexPiece reserved :=
    List.mem_append_right _ List.mem_cons_self
  exact List.isEmpty_eq_false_iff.mpr (List.ne_nil_of_mem (mem_trim hmem (by decide)))

/-- A text of bits without a name, perhaps behind some with names. -/
lemma ofText?_of_hexPiece {s : String} {front : List Char} {named : FunctionFlags}
    (hs : s.toList = front ++ '|' :: ' ' :: hexPiece reserved)
    (hfront : ((pieces front).mapM ofPiece?).map (·.foldl union empty) = some named) :
    ofText? s = some (union named { reserved }) := by
  have hempty : (trim s.toList).isEmpty = false := by
    have h := isEmpty_trim_append_hexPiece reserved (front ++ ['|', ' '])
    rw [List.append_assoc] at h
    exact hs ▸ h
  have hlast : pieces (' ' :: hexPiece reserved) = [' ' :: hexPiece reserved] := by
    refine List.splitOn_eq_singleton fun hc => ?_
    rw [List.mem_cons] at hc
    exact hc.elim (by decide) fun hc => (isSpace_of_mem_hexPiece hc).2 rfl
  obtain ⟨flags, hflags, hfold⟩ := Option.map_eq_some_iff.mp hfront
  have hpieces : (pieces s.toList).mapM ofPiece? =
      some (flags ++ [({ reserved } : FunctionFlags)]) := by
    rw [hs, pieces, List.splitOn_append_cons_self, ← pieces, ← pieces, hlast, List.mapM_append,
      hflags, List.mapM_cons, ofPiece?_space_cons, ofPiece?_hexPiece]
    rfl
  simp only [ofText?, hempty, hpieces, Bool.false_eq_true, if_false, Option.pure_def,
    Option.bind_eq_bind, Option.bind_some, List.foldl_append, List.foldl_cons, List.foldl_nil,
    hfold]

/-- A text of bits without a name alone. -/
lemma ofText?_of_eq_hexPiece {s : String} (hs : s.toList = hexPiece reserved) :
    ofText? s = some { reserved } := by
  have hempty : (trim s.toList).isEmpty = false :=
    hs ▸ isEmpty_trim_append_hexPiece reserved []
  have hpieces : pieces s.toList = [hexPiece reserved] := by
    rw [hs]
    exact List.splitOn_eq_singleton fun hc => (isSpace_of_mem_hexPiece hc).2 rfl
  simp only [ofText?, hempty, hpieces, List.mapM_cons, List.mapM_nil, ofPiece?_hexPiece,
    Bool.false_eq_true, if_false, Option.pure_def, Option.bind_eq_bind, Option.bind_some,
    List.foldl_cons, List.foldl_nil]
  exact congrArg some (union_reserved false false false reserved)

lemma pieces_text_append (live preserved fixedContents : Bool)
    (h : (live || preserved || fixedContents) = true) :
    ((pieces ((text { live, preserved, fixedContents }).toList ++ [' '])).mapM ofPiece?).map
      (·.foldl union empty) = some { live, preserved, fixedContents } := by
  revert h
  cases live <;> cases preserved <;> cases fixedContents <;> decide +kernel

lemma text_of_reserved (live preserved fixedContents : Bool) (hreserved : reserved ≠ 0) :
    text { live, preserved, fixedContents, reserved } =
      " | ".intercalate (names { live, preserved, fixedContents } ++
        [.ofList (hexPiece reserved)]) := by
  have hpiece : "0x" ++ hexText (8 * reserved.toNat) = .ofList (hexPiece reserved) := by
    rw [← String.toList_inj]
    simp [hexText, hexPiece]
  rw [text, if_neg hreserved, hpiece]
  rfl

lemma toList_text (live preserved fixedContents : Bool)
    (h : (live || preserved || fixedContents) = true) (hreserved : reserved ≠ 0) :
    (text { live, preserved, fixedContents, reserved }).toList =
      ((text { live, preserved, fixedContents }).toList ++ [' ']) ++
        '|' :: ' ' :: hexPiece reserved := by
  rw [text_of_reserved _ _ _ hreserved]
  revert h
  cases live <;> cases preserved <;> cases fixedContents <;> simp [text, names]

/-- The text of any flags is read as the flags. -/
theorem ofText?_text (flags : FunctionFlags) : ofText? flags.text = some flags := by
  obtain ⟨live, preserved, fixedContents, reserved⟩ := flags
  by_cases hreserved : reserved = 0
  · subst hreserved
    cases live <;> cases preserved <;> cases fixedContents <;> decide +kernel
  · by_cases hnamed : (live || preserved || fixedContents) = true
    · rw [ofText?_of_hexPiece (toList_text live preserved fixedContents hnamed hreserved)
        (pieces_text_append live preserved fixedContents hnamed), union_reserved]
    · obtain ⟨⟨hlive, hpreserved⟩, hfixed⟩ : (live = false ∧ preserved = false) ∧
          fixedContents = false := by
        simpa only [Bool.not_eq_true, Bool.or_eq_false_iff] using hnamed
      subst hlive hpreserved hfixed
      exact ofText?_of_eq_hexPiece (by rw [text_of_reserved _ _ _ hreserved]; simp [names])

end FunctionFlags

end LinkSummary
