namespace Lineage.Wire

/-!
# Variable-length integers

An integer below `2 ^ 64` as groups of seven bits, the lowest first, each in one byte; the high bit
of a byte says that another one follows.

* `varint?` — reads an integer of at most ten bytes,
* `varint`  — writes one with as few bytes as possible,
* `varint?_varint` — what is written is read back, whatever follows it.
-/

/-- A sequence of bytes. -/
abbrev Bytes := List UInt8

/-- An integer of at most so many bytes at the start of the input, and what follows it. -/
def varintWithin : Nat → Bytes → Option (Nat × Bytes)
  | 0, _ => none
  | _ + 1, [] => none
  | k + 1, b :: rest =>
    if b.toNat < 128 then some (b.toNat, rest)
    else (varintWithin k rest).map fun r => (b.toNat - 128 + 128 * r.1, r.2)

/-- The first integer that is too large, `2 ^ 64`. -/
def varintLimit : Nat := 0x10000000000000000

/-- An integer at the start of the input, and what follows it. -/
def varint? (bs : Bytes) : Option (Nat × Bytes) := (varintWithin 10 bs).filter (·.1 < varintLimit)

/-- An integer in at most `k + 1` bytes, the last of which takes what is left. -/
def varintDigits : Nat → Nat → Bytes
  | 0, n => [UInt8.ofNat n]
  | k + 1, n =>
    if n < 128 then [UInt8.ofNat n]
    else UInt8.ofNat (128 + n % 128) :: varintDigits k (n / 128)

/-- An integer below `2 ^ 64`. -/
def varint (n : Nat) : Bytes := varintDigits 9 n

/-- Bytes of an integer are read back if there are enough of them. -/
theorem varintWithin_varintDigits (k n : Nat) (rest : Bytes) (h : n < Nat.pow 128 (k + 1)) :
    varintWithin (k + 1) (varintDigits k n ++ rest) = some (n, rest) := by
  induction k generalizing n with
  | zero =>
    have small : n < 128 := h
    have byte : (UInt8.ofNat n).toNat = n := by simp; omega
    simp [varintDigits, varintWithin, byte, small]
  | succ k ih =>
    by_cases small : n < 128
    · have byte : (UInt8.ofNat n).toNat = n := by simp; omega
      simp [varintDigits, varintWithin, byte, small]
    · have byte : (UInt8.ofNat (128 + n % 128)).toNat = 128 + n % 128 := by simp; omega
      have lower : n / 128 < Nat.pow 128 (k + 1) :=
        Nat.div_lt_of_lt_mul (by rw [Nat.mul_comm]; exact h)
      have large : ¬ 128 + n % 128 < 128 := by omega
      rw [varintDigits, if_neg small, List.cons_append, varintWithin, byte, if_neg large,
        ih (n / 128) lower]
      simp
      omega

/-- What is written is read back, whatever follows it. -/
theorem varint?_varint (n : Nat) (rest : Bytes) (h : n < varintLimit) :
    varint? (varint n ++ rest) = some (n, rest) := by
  have bound : n < Nat.pow 128 (9 + 1) := Nat.lt_trans h (by decide)
  rw [varint?, varint, varintWithin_varintDigits 9 n rest bound]
  exact if_pos (decide_eq_true h)

end Lineage.Wire
