import LinkSummary.Binary.Varint
import Mathlib.Algebra.Order.Ring.Nat
import Mathlib.Tactic.Common

/-!
# Variable-length numbers read back

A byte at place `p` stands for seven bits from `7 * p` on, so a number from there on must be below
`2 ^ (64 - 7 * p)`. Then its shortest bytes read back.
-/

namespace LinkSummary.Varint

variable {n place : Nat} {rest : List UInt8}

lemma encode_ne_nil (n : Nat) : encode n ≠ [] := by
  rw [encode]
  split <;> simp

lemma toNat_ofNat_of_lt (h : n < 256) : (UInt8.ofNat n).toNat = n :=
  UInt8.toNat_ofNat_of_lt' h

lemma decodeFrom_encode (hplace : place < 10) (hn : n < 2 ^ (64 - 7 * place)) :
    decodeFrom place (encode n ++ rest) = .ok (n, rest) := by
  induction n using Nat.strongRecOn generalizing place with
  | ind n ih =>
    -- the last place has room for one bit
    have hlast : place = 9 → n < 2 := by
      rintro rfl
      exact hn
    rw [encode]
    split
    · rename_i hsmall
      have hbyte := toNat_ofNat_of_lt (n := n) (by omega)
      rw [List.singleton_append, decodeFrom, hbyte, if_neg (by omega), if_pos hsmall]
    · rename_i hbig
      have hbyte := toNat_ofNat_of_lt (n := n % 128 + 128) (by omega)
      have hpow : 2 ^ (64 - 7 * place) = 128 * 2 ^ (64 - 7 * (place + 1)) := by
        have hplace : 64 - 7 * place = 7 + (64 - 7 * (place + 1)) := by omega
        rw [hplace, Nat.pow_add]
      have hrest : decodeFrom (place + 1) (encode (n / 128) ++ rest) = .ok (n / 128, rest) :=
        ih (n / 128) (by omega) (by omega) (by omega)
      rw [List.cons_append, decodeFrom, hbyte, if_neg (by omega), if_neg (by omega), hrest]
      simp only [Except.ok.injEq, Prod.mk.injEq, and_true]
      omega

/-- A number of at most 64 bits reads back, whatever follows. -/
theorem decode_encode (hn : n < 2 ^ 64) : decode (encode n ++ rest) = .ok (n, rest) :=
  decodeFrom_encode (by omega) hn

end LinkSummary.Varint
