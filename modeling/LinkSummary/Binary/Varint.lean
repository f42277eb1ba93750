/-!
# Variable-length numbers

A number is stored in bytes of seven bits each, lowest first; every byte but the last has its high
bit set. Reading accepts any spelling, also one with superfluous zero bytes, whose value has at most
64 bits and which is at most ten bytes long.
-/

namespace LinkSummary.Varint

def encode (n : Nat) : List UInt8 :=
  if n < 128 then [UInt8.ofNat n] else UInt8.ofNat (n % 128 + 128) :: encode (n / 128)
termination_by n
decreasing_by omega

/-- Why no number can be read. -/
inductive Failure where
  | truncated
  | overflow
deriving DecidableEq

/-- Read the bytes of a number from the given place on, the first byte having place `0`. The tenth
byte has room for one bit, and there is no eleventh. -/
def decodeFrom : Nat → List UInt8 → Except Failure (Nat × List UInt8)
  | _, [] => .error .truncated
  | place, b :: bs =>
    if place ≥ 10 ∨ place = 9 ∧ b.toNat % 128 > 1 then .error .overflow
    else if b.toNat < 128 then .ok (b.toNat, bs)
    else
      match decodeFrom (place + 1) bs with
      | .ok (n, rest) => .ok (b.toNat % 128 + 128 * n, rest)
      | .error e => .error e

/-- The number at the start of some bytes, and the bytes after it. -/
def decode (bytes : List UInt8) : Except Failure (Nat × List UInt8) := decodeFrom 0 bytes

theorem decodeFrom_shorter {place : Nat} {bytes rest : List UInt8} {n : Nat}
    (h : decodeFrom place bytes = .ok (n, rest)) : rest.length < bytes.length := by
  induction bytes generalizing place n with
  | nil => simp [decodeFrom] at h
  | cons b bs ih =>
    simp only [decodeFrom] at h
    split at h
    · cases h
    · split at h
      · cases h
        simp
      · split at h
        · rename_i hd
          cases h
          have := ih hd
          simp only [List.length_cons]
          omega
        · cases h

theorem decode_shorter {bytes rest : List UInt8} {n : Nat}
    (h : decode bytes = .ok (n, rest)) : rest.length < bytes.length :=
  decodeFrom_shorter h

end LinkSummary.Varint
