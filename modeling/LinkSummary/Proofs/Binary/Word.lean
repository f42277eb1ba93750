import LinkSummary.Proofs.Binary.Shortest
import Mathlib.Data.Nat.Digits.Defs

/-!
# Numbers in words of 64 bits

A number of 64 bits is written and read by shifts: its lowest seven bits go into the next byte, and
the seven bits of a byte are shifted to their place and joined to those before. The shifts lose no
bit of a number that is accepted, so the word read is the sum of the digits, each in its place. What
is no number fails for one of two reasons: there are bits without room in a word, or the bytes end
before the number does.
-/

namespace LinkSummary

namespace Varint

variable {bytes rest : List UInt8} {b : UInt8} {n place : Nat} {w : UInt64}

/-! ### The bits of a byte -/

/-- The high bit of a byte tells that the number goes on. -/
def Continues (b : UInt8) : Prop := b &&& 0x80 ≠ 0

lemma continues_iff : Continues b ↔ 128 ≤ b.toNat := by
  have hmask : ∀ n < 256, n &&& 128 = 0 ↔ n < 128 := by decide +kernel
  rw [Continues, ne_eq, ← UInt8.toNat_inj, UInt8.toNat_and, ← not_lt]
  exact not_congr (hmask b.toNat b.toNat_lt)

/-- The seven bits of a digit without the lowest. -/
lemma and_upper_eq_zero_iff : b &&& 0x7E = 0 ↔ b.toNat % 128 ≤ 1 := by
  have hmask : ∀ n < 256, n &&& 126 = 0 ↔ n % 128 ≤ 1 := by decide +kernel
  rw [← UInt8.toNat_inj, UInt8.toNat_and]
  exact hmask b.toNat b.toNat_lt

lemma toNat_digit (b : UInt8) : (b &&& 0x7F).toUInt64.toNat = b.toNat % 128 := by
  rw [UInt8.toNat_toUInt64, UInt8.toNat_and]
  exact Nat.and_two_pow_sub_one_eq_mod b.toNat 7

/-! ### Spellings as sums -/

/-- All bytes but the last continue. -/
def Terminated (bytes : List UInt8) : Prop :=
  ∃ front last, bytes = front ++ [last] ∧ (∀ b ∈ front, Continues b) ∧ ¬ Continues last

/-- The sum of the digits `b % 128`, each times `128 ^ k` for its place `k`. -/
def value (bytes : List UInt8) : Nat := Nat.ofDigits 128 (bytes.map (·.toNat % 128))

lemma value_cons (b : UInt8) (bytes : List UInt8) :
    value (b :: bytes) = b.toNat % 128 + 128 * value bytes :=
  Nat.ofDigits_cons

lemma Digits.terminated_and_value (h : Digits bytes n) : Terminated bytes ∧ value bytes = n := by
  induction h with
  | @last b hsmall =>
    refine ⟨⟨[], b, rfl, nofun, ?_⟩, ?_⟩
    · rw [continues_iff]
      omega
    · rw [value_cons, Nat.mod_eq_of_lt hsmall]
      rfl
  | @more b bs n hbig _ ih =>
    obtain ⟨⟨front, last, rfl, hfront, hlast⟩, rfl⟩ := ih
    refine ⟨⟨b :: front, last, rfl, ?_, hlast⟩, value_cons b _⟩
    exact List.forall_mem_cons.mpr ⟨continues_iff.mpr hbig, hfront⟩

lemma Terminated.digits_value (h : Terminated bytes) : Digits bytes (value bytes) := by
  obtain ⟨front, last, rfl, hfront, hlast⟩ := h
  rw [continues_iff, not_le] at hlast
  induction front with
  | nil =>
    rw [List.nil_append, value_cons, Nat.mod_eq_of_lt hlast]
    exact .last hlast
  | cons b front ih =>
    rw [List.forall_mem_cons, continues_iff] at hfront
    rw [List.cons_append, value_cons]
    exact .more hfront.1 (ih hfront.2)

/-- At most ten bytes, all but the last of which continue, have a sum of at most 64 bits. -/
structure SumsTo (bytes : List UInt8) (n : Nat) : Prop where
  length_le : bytes.length ≤ 10
  terminated : Terminated bytes
  value_eq : value bytes = n
  lt : n < 2 ^ 64

lemma spells_iff_sumsTo : Spells bytes n ↔ SumsTo bytes n := by
  constructor
  · rintro ⟨hdigits, hlen, hlt⟩
    obtain ⟨hterminated, hvalue⟩ := hdigits.terminated_and_value
    exact ⟨hlen, hterminated, hvalue, hlt⟩
  · rintro ⟨hlen, hterminated, rfl, hlt⟩
    exact ⟨hterminated.digits_value, hlen, hlt⟩

/-- Each digit in its place is a part of the sum. -/
lemma digit_le_value {k : Nat} (h : bytes[k]? = some b) :
    b.toNat % 128 * 128 ^ k ≤ value bytes := by
  induction bytes generalizing k with
  | nil => cases h
  | cons b' bs ih =>
    rw [value_cons]
    cases k with
    | zero =>
      rw [List.getElem?_cons_zero, Option.some.injEq] at h
      rw [h, Nat.pow_zero]
      omega
    | succ k =>
      have hle := ih h
      rw [Nat.pow_succ, ← Nat.mul_assoc]
      omega

/-- Every digit of a number has room in a word. -/
lemma SumsTo.room {k : Nat} (h : SumsTo bytes n) (hb : bytes[k]? = some b) :
    ¬ (k ≥ 10 ∨ k = 9 ∧ b.toNat % 128 > 1) := by
  have hk := (List.getElem?_eq_some_iff.mp hb).1
  have hlen := h.length_le
  have hlt := h.lt
  have hle := h.value_eq ▸ digit_le_value hb
  rintro (hk' | ⟨rfl, hwide⟩)
  · omega
  · omega

/-! ### The shortest spelling -/

/-- The spelling that is written for a number. -/
structure IsShortest (bytes : List UInt8) (n : Nat) : Prop where
  sumsTo : SumsTo bytes n
  length_le : ∀ others, SumsTo others n → bytes.length ≤ others.length
  eq_zero : bytes.getLast? = some 0 → n = 0

/-- A number does not end with a superfluous digit. -/
lemma eq_zero_of_getLast?_encode (h : (encode n).getLast? = some 0) : n = 0 := by
  fun_induction encode n with
  | case1 n hsmall =>
    rw [List.getLast?_singleton, Option.some.injEq, ← UInt8.toNat_inj,
      toNat_ofNat_of_lt (by omega)] at h
    exact h
  | case2 n hbig ih =>
    obtain ⟨b, bs, hcons⟩ := List.exists_cons_of_ne_nil (encode_ne_nil (n / 128))
    rw [hcons, List.getLast?_cons_cons, ← hcons] at h
    have hzero := ih h
    omega

lemma isShortest_encode (hn : n < 2 ^ 64) : IsShortest (encode n) n where
  sumsTo := by
    have hread : decode (encode n ++ []) = .ok (n, []) := decode_encode hn
    obtain ⟨digits, hdigits, hspells⟩ := decode_eq_ok_iff.mp hread
    rw [List.append_nil, List.append_nil] at hdigits
    exact spells_iff_sumsTo.mp (hdigits ▸ hspells)
  length_le _ h := (spells_iff_sumsTo.mpr h).length_encode_le
  eq_zero := eq_zero_of_getLast?_encode

/-! ### Why reading fails -/

/-- The tenth byte has a bit without room in a word, or there is an eleventh. -/
def Overflows (bytes : List UInt8) : Prop :=
  (∃ nine tenth rest, bytes = nine ++ tenth :: rest ∧ nine.length = 9 ∧
    (∀ b ∈ nine, Continues b) ∧ tenth &&& 0x7E ≠ 0) ∨
  ∃ ten eleventh rest, bytes = ten ++ eleventh :: rest ∧ ten.length = 10 ∧ ∀ b ∈ ten, Continues b

/-- Bytes overflow, the first of which has the given place. -/
def OverflowsFrom (place : Nat) (bytes : List UInt8) : Prop :=
  ∃ front b rest, bytes = front ++ b :: rest ∧ (∀ x ∈ front, Continues x) ∧
    (place + front.length = 9 ∧ b &&& 0x7E ≠ 0 ∨ place + front.length = 10)

lemma overflowsFrom_zero_iff : OverflowsFrom 0 bytes ↔ Overflows bytes := by
  constructor
  · rintro ⟨front, b, rest, hbytes, hfront, hlen⟩
    rw [Nat.zero_add] at hlen
    rcases hlen with ⟨hlen, hbits⟩ | hlen
    · exact .inl ⟨front, b, rest, hbytes, hlen, hfront, hbits⟩
    · exact .inr ⟨front, b, rest, hbytes, hlen, hfront⟩
  · rintro (⟨front, b, rest, hbytes, hlen, hfront, hbits⟩ | ⟨front, b, rest, hbytes, hlen, hfront⟩)
    · exact ⟨front, b, rest, hbytes, hfront, .inl ⟨by rw [hlen], hbits⟩⟩
    · exact ⟨front, b, rest, hbytes, hfront, .inr (by rw [hlen])⟩

lemma not_overflowsFrom_nil : ¬ OverflowsFrom place [] := by
  rintro ⟨front, b, rest, hbytes, -⟩
  exact absurd hbytes.symm (List.append_ne_nil_of_right_ne_nil _ (List.cons_ne_nil _ _))

/-- A first byte overflows itself, or continues and those after it overflow. -/
lemma overflowsFrom_cons_iff : OverflowsFrom place (b :: bytes) ↔
    (place = 9 ∧ b &&& 0x7E ≠ 0 ∨ place = 10) ∨ Continues b ∧ OverflowsFrom (place + 1) bytes := by
  constructor
  · rintro ⟨_ | ⟨x, front⟩, y, rest, hbytes, hfront, hlen⟩
    · obtain ⟨rfl, -⟩ := List.cons_eq_cons.mp hbytes
      exact .inl hlen
    · obtain ⟨rfl, rfl⟩ := List.cons_eq_cons.mp hbytes
      rw [List.forall_mem_cons] at hfront
      rw [List.length_cons, Nat.add_comm front.length, ← Nat.add_assoc] at hlen
      exact .inr ⟨hfront.1, front, y, rest, rfl, hfront.2, hlen⟩
  · rintro (hlen | ⟨hb, front, y, rest, rfl, hfront, hlen⟩)
    · exact ⟨[], b, bytes, rfl, nofun, hlen⟩
    · refine ⟨b :: front, y, rest, rfl, List.forall_mem_cons.mpr ⟨hb, hfront⟩, ?_⟩
      rwa [List.length_cons, Nat.add_comm front.length, ← Nat.add_assoc]

/-- There is no room for a digit that is too wide or comes too late. -/
lemma decodeFrom_cons_of_not_room (h : place ≥ 10 ∨ place = 9 ∧ b.toNat % 128 > 1) :
    decodeFrom place (b :: bytes) = .error .overflow :=
  if_pos h

/-- If a digit has room and the number goes on, the digits after it decide on a failure. -/
lemma decodeFrom_cons_eq_error_iff {e : Failure}
    (hroom : ¬ (place ≥ 10 ∨ place = 9 ∧ b.toNat % 128 > 1)) :
    decodeFrom place (b :: bytes) = .error e ↔
      Continues b ∧ decodeFrom (place + 1) bytes = .error e := by
  rw [decodeFrom, if_neg hroom, continues_iff]
  split
  · rename_i hsmall
    exact iff_of_false (by simp) fun h => absurd h.1 (by omega)
  · rename_i hbig
    rw [and_iff_right (by omega)]
    cases decodeFrom (place + 1) bytes with
    | ok p => simp
    | error e' => rfl

/-- Reading fails for want of room exactly if the bytes overflow. -/
lemma decodeFrom_eq_overflow_iff (hplace : place ≤ 10) :
    decodeFrom place bytes = .error .overflow ↔ OverflowsFrom place bytes := by
  induction bytes generalizing place with
  | nil => exact iff_of_false nofun not_overflowsFrom_nil
  | cons b bs ih =>
    rw [overflowsFrom_cons_iff, ne_eq, and_upper_eq_zero_iff, not_le]
    by_cases hroom : place ≥ 10 ∨ place = 9 ∧ b.toNat % 128 > 1
    · exact iff_of_true (decodeFrom_cons_of_not_room hroom) (.inl (by omega))
    · rw [decodeFrom_cons_eq_error_iff hroom, ih (by omega), or_iff_right (by omega)]

/-- Reading fails for want of bytes exactly if all continue and none lacks room. -/
lemma decodeFrom_eq_truncated_iff : decodeFrom place bytes = .error .truncated ↔
    (∀ b ∈ bytes, Continues b) ∧ decodeFrom place bytes ≠ .error .overflow := by
  induction bytes generalizing place with
  | nil => exact iff_of_true rfl ⟨nofun, nofun⟩
  | cons b bs ih =>
    rw [List.forall_mem_cons]
    by_cases hroom : place ≥ 10 ∨ place = 9 ∧ b.toNat % 128 > 1
    · rw [decodeFrom_cons_of_not_room hroom]
      exact iff_of_false nofun fun h => h.2 rfl
    · rw [ne_eq, decodeFrom_cons_eq_error_iff hroom, decodeFrom_cons_eq_error_iff hroom, ih]
      tauto

/-! ### Words -/

lemma toNat_shiftRight_seven (w : UInt64) : (w >>> 7).toNat = w.toNat / 128 := by
  rw [UInt64.toNat_shiftRight]
  exact Nat.shiftRight_eq_div_pow w.toNat 7

lemma shiftRight_seven_eq_zero_iff : w >>> 7 = 0 ↔ w.toNat < 128 := by
  rw [← UInt64.toNat_inj, toNat_shiftRight_seven]
  change w.toNat / 128 = 0 ↔ _
  omega

/-- Write a word: as long as bits are left, the lowest seven are shifted out. -/
def encodeWord (w : UInt64) : List UInt8 :=
  if w >>> 7 = 0 then [(w &&& 0x7F).toUInt8]
  else ((w &&& 0x7F).toUInt8 ||| 0x80) :: encodeWord (w >>> 7)
termination_by w.toNat
decreasing_by
  rename_i hmore
  rw [shiftRight_seven_eq_zero_iff] at hmore
  rw [toNat_shiftRight_seven]
  omega

/-- Read a word: the digits are shifted to their places and joined. A shift by 64 or more is that of
a digit too many, and one by 63 leaves room for a single bit. -/
def decodeWord (shift : Nat) (word : UInt64) : List UInt8 → Except Failure (UInt64 × List UInt8)
  | [] => .error .truncated
  | b :: bs =>
    if shift ≥ 64 ∨ shift = 63 ∧ b &&& 0x7E ≠ 0 then .error .overflow
    else
      let word := word ||| (b &&& 0x7F).toUInt64 <<< UInt64.ofNat shift
      if b &&& 0x80 = 0 then .ok (word, bs) else decodeWord (shift + 7) word bs

lemma toNat_low (w : UInt64) : (w &&& 0x7F).toUInt8.toNat = w.toNat % 128 := by
  have hlow : (w &&& 0x7F).toNat = w.toNat % 128 := by
    rw [UInt64.toNat_and]
    exact Nat.and_two_pow_sub_one_eq_mod w.toNat 7
  rw [UInt64.toNat_toUInt8, hlow]
  omega

lemma toNat_or_high (h : b.toNat < 128) : (b ||| 0x80).toNat = b.toNat + 128 := by
  have hmask : ∀ n < 128, n ||| 128 = n + 128 := by decide +kernel
  rw [UInt8.toNat_or]
  exact hmask b.toNat h

/-- The shifts write the digits of the number. -/
lemma encodeWord_eq (w : UInt64) : encodeWord w = encode w.toNat := by
  fun_induction encodeWord w with
  | case1 w hlast =>
    rw [shiftRight_seven_eq_zero_iff] at hlast
    rw [encode, if_pos hlast, List.cons.injEq, ← UInt8.toNat_inj, toNat_low,
      toNat_ofNat_of_lt (by omega), Nat.mod_eq_of_lt hlast]
    exact ⟨rfl, rfl⟩
  | case2 w hmore ih =>
    rw [shiftRight_seven_eq_zero_iff] at hmore
    rw [encode, if_neg hmore, ih, toNat_shiftRight_seven, List.cons.injEq, ← UInt8.toNat_inj,
      toNat_or_high (by rw [toNat_low]; omega), toNat_low, toNat_ofNat_of_lt (by omega)]
    exact ⟨rfl, rfl⟩

/-- A digit that has room keeps all of its bits when it is shifted to its place. -/
lemma toNat_shift_digit (hroom : ¬ (place ≥ 10 ∨ place = 9 ∧ b.toNat % 128 > 1)) :
    ((b &&& 0x7F).toUInt64 <<< UInt64.ofNat (7 * place)).toNat =
      b.toNat % 128 * 2 ^ (7 * place) := by
  have hshift : (UInt64.ofNat (7 * place)).toNat = 7 * place :=
    UInt64.toNat_ofNat_of_lt' (Nat.lt_of_lt_of_le (m := 64) (by omega) (by decide))
  have hmod : 7 * place % 64 = 7 * place := Nat.mod_eq_of_lt (by omega)
  rw [UInt64.toNat_shiftLeft, toNat_digit, hshift, hmod, Nat.shiftLeft_eq]
  apply Nat.mod_eq_of_lt
  by_cases hlast : place = 9
  · subst hlast
    omega
  · calc b.toNat % 128 * 2 ^ (7 * place) < 2 ^ 7 * 2 ^ (7 * place) :=
          Nat.mul_lt_mul_of_pos_right (by omega) (Nat.two_pow_pos _)
      _ = 2 ^ (7 + 7 * place) := (Nat.pow_add _ _ _).symm
      _ ≤ 2 ^ 64 := Nat.pow_le_pow_right (by decide) (by omega)

/-- A digit is joined to those before it as a summand. -/
lemma toNat_join (hroom : ¬ (place ≥ 10 ∨ place = 9 ∧ b.toNat % 128 > 1))
    (hw : w.toNat < 2 ^ (7 * place)) :
    (w ||| (b &&& 0x7F).toUInt64 <<< UInt64.ofNat (7 * place)).toNat =
      w.toNat + 2 ^ (7 * place) * (b.toNat % 128) := by
  rw [UInt64.toNat_or, toNat_shift_digit hroom, Nat.or_comm, Nat.mul_comm,
    ← Nat.two_pow_add_eq_or_of_lt hw, Nat.add_comm]

/-- The shifts read the digits of the number. -/
lemma decodeWord_eq (hw : w.toNat < 2 ^ (7 * place)) :
    (decodeWord (7 * place) w bytes).map (fun p => (p.1.toNat, p.2)) =
      (decodeFrom place bytes).map fun p => (w.toNat + 2 ^ (7 * place) * p.1, p.2) := by
  induction bytes generalizing place w with
  | nil => rfl
  | cons b bs ih =>
    have hroom : 7 * place ≥ 64 ∨ 7 * place = 63 ∧ b &&& 0x7E ≠ 0 ↔
        place ≥ 10 ∨ place = 9 ∧ b.toNat % 128 > 1 := by
      rw [ne_eq, and_upper_eq_zero_iff]
      omega
    have hlast : b &&& 0x80 = 0 ↔ b.toNat < 128 := by
      rw [← not_le, ← continues_iff, Continues, not_not]
    rw [decodeWord, decodeFrom]
    simp only [hroom, hlast]
    split
    · rfl
    · rename_i hfits
      have hjoin := toNat_join hfits hw
      split
      · rename_i hsmall
        rw [Nat.mod_eq_of_lt hsmall] at hjoin
        simp only [Except.map, hjoin]
      · have hpow : 2 ^ (7 * (place + 1)) = 128 * 2 ^ (7 * place) := by
          rw [Nat.mul_succ, Nat.pow_add, Nat.mul_comm]
        have hw' : (w ||| (b &&& 0x7F).toUInt64 <<< UInt64.ofNat (7 * place)).toNat <
            2 ^ (7 * (place + 1)) := by
          have hdigit : 2 ^ (7 * place) * (b.toNat % 128) ≤ 2 ^ (7 * place) * 127 :=
            Nat.mul_le_mul_left _ (by omega)
          omega
        rw [← Nat.mul_succ, ih hw', hjoin, hpow]
        cases decodeFrom (place + 1) bs with
        | error e => rfl
        | ok p =>
          simp only [Except.map, Except.ok.injEq, Prod.mk.injEq, and_true]
          ring

/-- The word read from some bytes is the number read from them. -/
lemma map_decodeWord_eq (bytes : List UInt8) :
    (decodeWord 0 0 bytes).map (fun p => (p.1.toNat, p.2)) = decode bytes := by
  have hzero : (0 : UInt64).toNat < 2 ^ (7 * 0) := by decide
  rw [← Nat.mul_zero 7, decodeWord_eq hzero, decode]
  cases decodeFrom 0 bytes with
  | error e => rfl
  | ok p =>
    rw [Except.map, Nat.mul_zero, Nat.pow_zero, Nat.one_mul, UInt64.toNat_zero, Nat.zero_add]

end Varint

namespace Cursor

variable {c c' : Cursor} {n : Nat}

lemma varint_eq_ok_iff : varint c = .ok (n, c') ↔ ∃ digits, c.rest = digits ++ c'.rest ∧
    c'.offset = c.offset + digits.length ∧ Varint.SumsTo digits n := by
  rw [Recognizes.varint c n c']
  simp only [Varint.spells_iff_sumsTo]

lemma decode_eq_overflow_iff {bytes : List UInt8} :
    Varint.decode bytes = .error .overflow ↔ Varint.Overflows bytes := by
  rw [Varint.decode, Varint.decodeFrom_eq_overflow_iff (by omega), Varint.overflowsFrom_zero_iff]

lemma varint_eq_malformed_iff : varint c = .error (.malformedRecord c.offset .varintOverflow) ↔
    Varint.Overflows c.rest := by
  rw [← decode_eq_overflow_iff, varint]
  rcases Varint.decode c.rest with (_ | _) | p <;> simp

lemma varint_eq_truncated_iff : varint c = .error (.truncated (c.offset + c.rest.length) 1 0) ↔
    (∀ b ∈ c.rest, Varint.Continues b) ∧ ¬ Varint.Overflows c.rest := by
  rw [← decode_eq_overflow_iff, Varint.decode, ← ne_eq, ← Varint.decodeFrom_eq_truncated_iff,
    ← Varint.decode, varint]
  rcases Varint.decode c.rest with (_ | _) | p <;> simp

/-- There are three outcomes. -/
lemma varint_cases (c : Cursor) : (∃ n c', varint c = .ok (n, c')) ∨
    varint c = .error (.malformedRecord c.offset .varintOverflow) ∨
    varint c = .error (.truncated (c.offset + c.rest.length) 1 0) := by
  rw [varint]
  rcases Varint.decode c.rest with (_ | _) | p <;> simp

/-- Reading ends too early where neither a number begins nor the bytes overflow. -/
lemma varint_eq_truncated_iff_remaining :
    varint c = .error (.truncated (c.offset + c.rest.length) 1 0) ↔
      ¬ Varint.Overflows c.rest ∧ ¬ ∃ digits n, digits <+: c.rest ∧ Varint.SumsTo digits n := by
  rw [← varint_eq_malformed_iff]
  constructor
  · intro htruncated
    refine ⟨by rw [htruncated]; nofun, ?_⟩
    rintro ⟨digits, n, ⟨rest, hrest⟩, hsum⟩
    have hok : varint c = .ok (n, ⟨rest, c.offset + digits.length⟩) :=
      varint_eq_ok_iff.mpr ⟨digits, hrest.symm, rfl, hsum⟩
    rw [htruncated] at hok
    cases hok
  · rintro ⟨hoverflow, hnone⟩
    rcases varint_cases c with ⟨n, c', hok⟩ | hmalformed | htruncated
    · obtain ⟨digits, hrest, -, hsum⟩ := varint_eq_ok_iff.mp hok
      exact absurd ⟨digits, n, ⟨c'.rest, hrest.symm⟩, hsum⟩ hnone
    · exact absurd hmalformed hoverflow
    · exact htruncated

/-- Numbers are exact. A word is written by shifts in the shortest of its spellings, and is read
back from it, whatever follows. At any place a number is read exactly if one begins there, as the
sum of its digits; the shifts that read it lose no bit of a digit. Otherwise reading fails, where
the number began if its bytes overflow, and at the end of the bytes if they end before it does. -/
theorem varint_exact (w : UInt64) (c : Cursor) :
    (Varint.encodeWord w = Varint.encode w.toNat ∧
      Varint.IsShortest (Varint.encode w.toNat) w.toNat ∧
      varint ⟨Varint.encode w.toNat ++ c.rest, c.offset⟩ =
        .ok (w.toNat, ⟨c.rest, c.offset + (Varint.encode w.toNat).length⟩)) ∧
    (∀ n c', varint c = .ok (n, c') ↔ ∃ digits, c.rest = digits ++ c'.rest ∧
      c'.offset = c.offset + digits.length ∧ Varint.SumsTo digits n) ∧
    (varint c = .error (.malformedRecord c.offset .varintOverflow) ↔ Varint.Overflows c.rest) ∧
    ((varint c = .error (.truncated (c.offset + c.rest.length) 1 0) ↔
        ¬ Varint.Overflows c.rest ∧ ¬ ∃ digits n, digits <+: c.rest ∧ Varint.SumsTo digits n) ∧
      (varint c = .error (.truncated (c.offset + c.rest.length) 1 0) →
        ∀ b ∈ c.rest, Varint.Continues b)) ∧
    (Varint.decode c.rest =
        (Varint.decodeWord 0 0 c.rest).map (fun p => (p.1.toNat, p.2)) ∧
      ∀ digits n, Varint.SumsTo digits n → ∀ (k : Nat) b, digits[k]? = some b →
        ((b &&& 0x7F).toUInt64 <<< UInt64.ofNat (7 * k)).toNat = b.toNat % 128 * 128 ^ k) := by
  have hlt : w.toNat < 2 ^ 64 := w.toNat_lt
  have hshortest := Varint.isShortest_encode hlt
  refine ⟨⟨Varint.encodeWord_eq w, hshortest, ?_⟩, fun _ _ => varint_eq_ok_iff,
    varint_eq_malformed_iff, ⟨varint_eq_truncated_iff_remaining, ?_⟩, ?_, ?_⟩
  · exact varint_eq_ok_iff.mpr ⟨_, rfl, rfl, hshortest.sumsTo⟩
  · exact fun htruncated => (varint_eq_truncated_iff.mp htruncated).1
  · exact (Varint.map_decodeWord_eq c.rest).symm
  · intro digits n hsum k b hb
    rw [Varint.toNat_shift_digit (hsum.room hb), Nat.pow_mul]

/-- The tenth byte has room for one bit, and the number may not go on after it. -/
example :
    varint ⟨List.replicate 9 0xFF ++ [0x01, 7], 3⟩ = .ok (2 ^ 64 - 1, ⟨[7], 13⟩) ∧
    varint ⟨List.replicate 9 0x80 ++ [0x02], 3⟩ = .error (.malformedRecord 3 .varintOverflow) ∧
    varint ⟨List.replicate 9 0x80 ++ [0x81], 3⟩ = .error (.truncated 13 1 0) ∧
    varint ⟨List.replicate 10 0x81 ++ [0], 3⟩ = .error (.malformedRecord 3 .varintOverflow) := by
  decide +kernel

end Cursor

end LinkSummary
