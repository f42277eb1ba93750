import LinkSummary.Json.Reader
import Mathlib.Data.List.Basic
import Mathlib.Data.List.TakeDrop
import Mathlib.Data.Option.Basic
import Mathlib.Tactic.Common

/-!
# Spellings of texts and numbers

The spelling that is written for a text stands for this text, and so does the one for a number. When
more is to be read, a text ends at its closing quote and a number where no more of it can follow.
-/

namespace LinkSummary.Json

/-! ### Characters -/

/-- What may stand for a character within quotes. -/
inductive SpellsChar : Char → List Char → Prop
  | plain {c : Char} (hquote : c ≠ '"') (hescape : c ≠ '\\') (hprintable : 0x20 ≤ c.toNat) :
      SpellsChar c [c]
  | short {c letter : Char} (hletter : shortEscape? letter = some c) : SpellsChar c ['\\', letter]
  | unit {c w x y z : Char} (hunit : hexWord? w x y z = some c.toNat) (hcontrol : c.toNat < 0x20) :
      SpellsChar c ['\\', 'u', w, x, y, z]

lemma hexWord?_control (n : Nat) (h : n < 0x20) :
    hexWord? '0' '0' (hexDigit (n / 16)) (hexDigit (n % 16)) = some n := by
  decide +revert

lemma spellsChar_escapeChar (c : Char) : SpellsChar c (escapeChar c) := by
  unfold escapeChar
  split
  case h_8 hquote hescape _ _ _ _ _ =>
    split
    · rename_i hcontrol
      exact .unit (hexWord?_control c.toNat hcontrol) hcontrol
    · rename_i hprintable
      exact .plain hquote hescape (Nat.le_of_not_lt hprintable)
  all_goals exact .short rfl

variable {c : Char} {spelling : List Char}

/-- Reading up to the closing quote passes over the spelling of a character as a whole. -/
lemma textSpelling?_append (h : SpellsChar c spelling) (cs : List Char) :
    textSpelling? (spelling ++ cs) =
      (textSpelling? cs).map fun found => (spelling ++ found.1, found.2) := by
  cases h with
  | plain hquote hescape hprintable =>
    rw [List.singleton_append, textSpelling?]
    · simp only [hescape, hprintable, ne_eq, not_false_eq_true, and_self, guard_true]
      cases textSpelling? cs <;> rfl
    · exact hquote
    · exact fun _ _ _ _ _ heq => absurd heq hescape
    · exact fun _ _ heq => absurd heq hescape
  | @short letter hletter =>
    rw [List.cons_append, List.singleton_append, textSpelling?]
    · simp only [hletter, Option.isSome_some, guard_true]
      cases textSpelling? cs <;> rfl
    · rintro _ _ _ _ _ rfl
      cases hletter
  | unit hunit hcontrol =>
    simp only [List.cons_append, List.nil_append]
    rw [textSpelling?]
    simp only [hunit, Option.isSome_some, guard_true]
    cases textSpelling? cs <;> rfl

/-- The spelling of a character stands for it, whatever follows. -/
lemma unescapeChars_append (h : SpellsChar c spelling) (cs : List Char) :
    unescapeChars (spelling ++ cs) = (unescapeChars cs).map (c :: ·) := by
  cases h with
  | plain hquote hescape hprintable =>
    rw [List.singleton_append, unescapeChars]
    · cases unescapeChars cs <;> rfl
    · exact fun _ _ _ _ _ _ _ _ _ heq => absurd heq hescape
    · exact fun _ _ _ _ _ heq => absurd heq hescape
    · exact fun _ _ heq => absurd heq hescape
  | @short letter hletter =>
    have hne : letter ≠ 'u' := by
      rintro rfl
      cases hletter
    rw [List.cons_append, List.singleton_append, unescapeChars]
    · simp only [hletter]
      cases unescapeChars cs <;> rfl
    · exact fun _ _ _ _ _ _ _ _ _ heq => absurd heq hne
    · exact fun _ _ _ _ _ heq => absurd heq hne
  | @unit w x y z hunit hcontrol =>
    -- a unit below the surrogates stands for itself, also before another unit
    have hleading : isLeading c.toNat = false := by
      rw [isLeading, Bool.and_eq_false_iff, decide_eq_false_iff_not]
      left
      omega
    have htrailing : isTrailing c.toNat = false := by
      rw [isTrailing, Bool.and_eq_false_iff, decide_eq_false_iff_not]
      left
      omega
    simp only [List.cons_append, List.nil_append]
    by_cases hnext : ∃ w' x' y' z' cs', cs = '\\' :: 'u' :: w' :: x' :: y' :: z' :: cs'
    · obtain ⟨w', x', y', z', cs', rfl⟩ := hnext
      rw [unescapeChars]
      simp only [hunit, Option.bind_eq_bind, Option.bind_some, hleading, htrailing,
        Char.ofNat_toNat, Bool.false_eq_true, if_false, Bool.not_false, guard_true]
      cases unescapeChars ('\\' :: 'u' :: w' :: x' :: y' :: z' :: cs') <;> rfl
    · rw [unescapeChars]
      · simp only [hunit, Option.bind_eq_bind, Option.bind_some, hleading, htrailing,
          Char.ofNat_toNat, Bool.not_false, Bool.and_self, guard_true]
        cases unescapeChars cs <;> rfl
      · exact fun w' x' y' z' cs' heq => hnext ⟨w', x', y', z', cs', heq⟩

/-! ### Texts -/

lemma textSpelling?_flatMap_escapeChar (cs rest : List Char) :
    textSpelling? (cs.flatMap escapeChar ++ '"' :: rest) =
      some (cs.flatMap escapeChar, rest) := by
  induction cs with
  | nil => rw [List.flatMap_nil, List.nil_append, textSpelling?]
  | cons c cs ih =>
    rw [List.flatMap_cons, List.append_assoc, textSpelling?_append (spellsChar_escapeChar c), ih]
    rfl

lemma unescapeChars_flatMap_escapeChar (cs : List Char) :
    unescapeChars (cs.flatMap escapeChar) = some cs := by
  induction cs with
  | nil => rw [List.flatMap_nil, unescapeChars]
  | cons c cs ih =>
    rw [List.flatMap_cons, unescapeChars_append (spellsChar_escapeChar c), ih]
    rfl

lemma toList_escape (s : String) : (escape s).toList = s.toList.flatMap escapeChar :=
  String.toList_ofList

/-- The closing quote of a text is found. -/
lemma textSpelling?_escape (s : String) (rest : List Char) :
    textSpelling? ((escape s).toList ++ '"' :: rest) = some ((escape s).toList, rest) := by
  rw [toList_escape, textSpelling?_flatMap_escapeChar]

/-- The spelling of a text stands for the text. -/
@[simp] lemma unescape?_escape (s : String) : unescape? (escape s) = some s := by
  rw [unescape?, toList_escape, unescapeChars_flatMap_escapeChar, Option.map_some,
    String.ofList_toList]

@[simp] lemma asText?_ofText (s : String) : (ofText s).asText? = some s := unescape?_escape s

/-! ### Numbers -/

/-- Nothing that is to be read next belongs to a number. -/
def EndsNumber (rest : List Char) : Prop :=
  ∀ c ∈ rest.head?, c.isDigit = false ∧ c ≠ '.' ∧ c ≠ 'e' ∧ c ≠ 'E'

lemma toList_toString (n : Nat) : (toString n).toList = Nat.toDigits 10 n := by
  rw [Nat.toString_eq_repr, Nat.toList_repr]

lemma isDigit_of_mem_toDigits {n : Nat} (h : c ∈ Nat.toDigits 10 n) : c.isDigit = true :=
  Nat.isDigit_of_mem_toDigits (by decide) (by decide) h

lemma exists_toDigits_eq_cons (n : Nat) :
    ∃ digit digits, Nat.toDigits 10 n = digit :: digits ∧ digit.isDigit = true := by
  obtain ⟨digit, digits, h⟩ := List.exists_cons_of_ne_nil (Nat.toDigits_ne_nil (n := n) (b := 10))
  exact ⟨digit, digits, h, isDigit_of_mem_toDigits (h ▸ List.mem_cons_self)⟩

/-- Only zero begins with a zero. -/
lemma eq_zero_of_head?_toDigits {n : Nat} (h : (Nat.toDigits 10 n).head? = some '0') : n = 0 := by
  induction n using Nat.strongRecOn with
  | ind n ih =>
    rw [Nat.toDigits_eq_if (by decide)] at h
    split at h
    · rw [List.head?_cons, Option.some_inj, Nat.digitChar_eq_zero] at h
      exact h
    · rw [List.head?_append, Option.or_of_isSome (List.isSome_head?.mpr Nat.toDigits_ne_nil)] at h
      have := ih (n / 10) (by omega) h
      omega

lemma foldl_toDigits (n : Nat) :
    (Nat.toDigits 10 n).foldl (fun n c => n * 10 + (c.toNat - '0'.toNat)) 0 = n := by
  have hfold := Nat.ofDigitChars_ten_toDigits (n := n)
  rw [Nat.ofDigitChars_eq_foldl] at hfold
  simp only [Nat.mul_comm 10] at hfold
  exact hfold

/-- The spelling of a number of 32 bits stands for the number. -/
@[simp] lemma word?_toString (n : UInt32) : word? (toString n.toNat) = some n := by
  have hdigits : (Nat.toDigits 10 n.toNat).all Char.isDigit = true :=
    List.all_eq_true.mpr fun c => isDigit_of_mem_toDigits
  have hzero : (Nat.toDigits 10 n.toNat == ['0'] ||
      (Nat.toDigits 10 n.toNat).head? != some '0') = true := by
    rw [Bool.or_eq_true, beq_iff_eq, bne_iff_ne]
    by_cases hhead : (Nat.toDigits 10 n.toNat).head? = some '0'
    · rw [eq_zero_of_head?_toDigits hhead]
      exact .inl rfl
    · exact .inr hhead
  have hlt : n.toNat < UInt32.size := n.toNat_lt
  have hempty : (Nat.toDigits 10 n.toNat).isEmpty = false :=
    List.isEmpty_eq_false_iff.mpr Nat.toDigits_ne_nil
  rw [word?, toList_toString]
  simp only [hempty, hdigits, hzero, foldl_toDigits, hlt, Bool.not_false, Bool.and_self, guard_true,
    Option.pure_def, Option.bind_eq_bind, Option.bind_some, UInt32.ofNat_toNat]

lemma escapeChar_of_isDigit (h : c.isDigit = true) : escapeChar c = [c] := by
  unfold escapeChar
  split
  case h_8 =>
    have hle : 48 ≤ c.toNat := by
      rw [Char.isDigit, Bool.and_eq_true, decide_eq_true_iff] at h
      exact h.1
    rw [if_neg (by omega)]
  all_goals cases h

/-- The digits of a number stand for themselves within quotes. -/
lemma escape_toString (n : Nat) : escape (toString n) = toString n := by
  rw [← String.toList_inj, toList_escape, toList_toString,
    List.flatMap_congr fun c hc => escapeChar_of_isDigit (isDigit_of_mem_toDigits hc)]
  exact List.flatMap_singleton' _

lemma spanDigits_append {digits rest : List Char} (hdigits : ∀ c ∈ digits, c.isDigit = true)
    (h : EndsNumber rest) : spanDigits (digits ++ rest) = (digits, rest) := by
  have hrest : rest.takeWhile Char.isDigit = [] ∧ rest.dropWhile Char.isDigit = rest := by
    cases rest with
    | nil => exact ⟨rfl, rfl⟩
    | cons c cs =>
      have hc := (h c rfl).1
      rw [List.takeWhile_cons, List.dropWhile_cons, hc]
      exact ⟨rfl, rfl⟩
  rw [spanDigits, List.span_eq_takeWhile_dropWhile, List.takeWhile_append_of_pos hdigits,
    List.dropWhile_append_of_pos hdigits, hrest.1, hrest.2, List.append_nil]

lemma wholePart?_toDigits (n : Nat) {rest : List Char} (h : EndsNumber rest) :
    wholePart? (Nat.toDigits 10 n ++ rest) = some (Nat.toDigits 10 n, rest) := by
  cases hdigits : Nat.toDigits 10 n with
  | nil => exact absurd hdigits Nat.toDigits_ne_nil
  | cons d ds =>
    by_cases hd : d = '0'
    · have hzero : n = 0 := eq_zero_of_head?_toDigits (by rw [hdigits, hd]; rfl)
      rw [hzero, Nat.toDigits_zero] at hdigits
      cases hdigits
      have hhead : rest.head?.any Char.isDigit = false := by
        cases rest with
        | nil => rfl
        | cons c cs => exact (h c rfl).1
      rw [List.singleton_append, wholePart?, hhead]
      rfl
    · have hspan : spanDigits (d :: ds ++ rest) = (d :: ds, rest) :=
        spanDigits_append (fun c hc => isDigit_of_mem_toDigits (hdigits ▸ hc)) h
      rw [List.cons_append, wholePart?, someDigits?, ← List.cons_append, hspan]
      exact fun cs heq => hd (List.cons.inj heq).1

/-- A number is read up to where it ends. -/
lemma numberSpelling?_toString (n : Nat) {rest : List Char} (h : EndsNumber rest) :
    numberSpelling? ((toString n).toList ++ rest) = some (toString n, rest) := by
  have hfraction : fraction? rest = some ([], rest) := by
    cases rest with
    | nil => rfl
    | cons c cs =>
      rw [fraction?]
      exact fun cs' heq => (h c rfl).2.1 (List.cons.inj heq).1
  have hexponent : exponent? rest = some ([], rest) := by
    cases rest with
    | nil => rfl
    | cons c cs => rw [exponent?, if_neg (not_or.mpr (h c rfl).2.2)]
  obtain ⟨digit, digits, hdigits, hdigit⟩ := exists_toDigits_eq_cons n
  rw [numberSpelling?, toList_toString]
  · simp only [wholePart?_toDigits n h, hfraction, hexponent, Option.pure_def, Option.bind_eq_bind,
      Option.bind_some, List.nil_append, List.append_nil, Nat.toString_eq_ofList_toDigits]
  · rw [toList_toString, hdigits]
    rintro cs ⟨⟩
    cases hdigit

end LinkSummary.Json
