namespace Lineage

/-!
# Binary64 numbers

A binary64 number is its sixty-four bits.  A finite one stands for `± m · 2 ^ q`; everything here is
computed on `m` and `q` in exact integer arithmetic.

* `Binary64.significand`, `Binary64.exponent` — the `m` and `q` of a finite number,
* `Binary64.nearest` — the number closest to a fraction, a tie going to the even significand,
* `Binary64.le`, `Binary64.mul`, `Binary64.div`, `Binary64.sub` — comparison and arithmetic, each
  result the number nearest to the exact one.
-/

/-- A binary64 number, as its bits: sign, eleven exponent bits, fifty-two fraction bits. -/
structure Binary64 where
  bits : UInt64
deriving DecidableEq, Inhabited

namespace Binary64

/-! ### Fields -/

/-- The bits of positive infinity; the bits of a NaN, sign apart, are larger. -/
def infinityBits : Nat := 0x7FF0000000000000

/-- The sign bit, `2 ^ 63`. -/
def signBit : Nat := 0x8000000000000000

/-- The lowest exponent bit, `2 ^ 52`, which is also the leading bit of a normal significand. -/
def exponentBit : Nat := 0x10000000000000

/-- Whether the sign bit is set. -/
def negative (x : Binary64) : Bool := signBit ≤ x.bits.toNat

/-- The bits without the sign; they order the magnitudes. -/
def magnitude (x : Binary64) : Nat := x.bits.toNat % signBit

/-- A magnitude above all infinities is no number. -/
def isNaN (x : Binary64) : Bool := infinityBits < x.magnitude

/-- The magnitude between numbers and NaNs. -/
def isInfinite (x : Binary64) : Bool := x.magnitude == infinityBits

/-- Neither infinite nor a NaN. -/
def isFinite (x : Binary64) : Bool := x.magnitude < infinityBits

/-- Both zeros are zero. -/
def isZero (x : Binary64) : Bool := x.magnitude == 0

/-- The `m` of a finite number `± m · 2 ^ q`. -/
def significand (x : Binary64) : Nat :=
  if x.magnitude < exponentBit then x.magnitude else exponentBit + x.magnitude % exponentBit

/-- The `q` of a finite number `± m · 2 ^ q`. -/
def exponent (x : Binary64) : Int :=
  if x.magnitude < exponentBit then -1074 else (x.magnitude / exponentBit : Nat) - 1075

/-- The magnitude of a finite number as a fraction. -/
def fraction (x : Binary64) : Nat × Nat :=
  (x.significand <<< x.exponent.toNat, 1 <<< (-x.exponent).toNat)

/-! ### Building -/

/-- The number with a given sign and given remaining bits. -/
def ofMagnitude (negative : Bool) (magnitude : Nat) : Binary64 :=
  ⟨UInt64.ofNat (magnitude + if negative then signBit else 0)⟩

/-- The zero of a sign. -/
def zero (negative : Bool) : Binary64 := ofMagnitude negative 0

/-- The infinity of a sign. -/
def infinity (negative : Bool) : Binary64 := ofMagnitude negative infinityBits

/-- The NaN that arithmetic results in. -/
def nan : Binary64 := ofMagnitude false 0x7FF8000000000000

/-- The quotient rounded to the nearest integer, a tie to the even one. -/
def roundQuotient (num den : Nat) : Nat :=
  let quotient := num / den
  let rest := num % den
  if 2 * rest < den then quotient
  else if den < 2 * rest then quotient + 1
  else quotient + quotient % 2

/-- The exponent `q` at which a positive fraction has a significand of fifty-three bits, but not
    below the smallest exponent. -/
def scaleOf (num den : Nat) : Int :=
  let guess : Int := (Nat.log2 num : Int) - Nat.log2 den
  let fits := den <<< guess.toNat ≤ num <<< (-guess).toNat
  max ((if fits then guess else guess - 1) - 52) (-1074)

/-- The number nearest to a fraction.  Counting from `2 ^ -1074` the magnitude bits of `m · 2 ^ q`
    are `(q + 1074) · 2 ^ 52 + m`, also where rounding carries `m` to fifty-four bits. -/
def nearest (negative : Bool) (num den : Nat) : Binary64 :=
  if num = 0 then zero negative
  else
    let q := scaleOf num den
    let m := roundQuotient (num <<< (-q).toNat) (den <<< q.toNat)
    ofMagnitude negative (min ((q + 1074).toNat * exponentBit + m) infinityBits)

/-- The number nearest to an integer. -/
def ofInt (n : Int) : Binary64 := nearest (n < 0) n.natAbs 1

/-- The number nearest to `digits · 10 ^ exp10`.  Beyond the range of binary64 the power is not
    computed. -/
def ofDecimal (negative : Bool) (digits : Nat) (exp10 : Int) : Binary64 :=
  if digits = 0 then zero negative
  else if 400 < exp10 then infinity negative
  else if exp10 + Nat.log2 digits < -400 then zero negative
  else nearest negative (digits * Nat.pow 10 exp10.toNat) (Nat.pow 10 (-exp10).toNat)

/-! ### Comparison and arithmetic -/

/-- The same number with the other sign. -/
def neg (x : Binary64) : Binary64 := ofMagnitude (!x.negative) x.magnitude

/-- The number without its sign. -/
def abs (x : Binary64) : Binary64 := ofMagnitude false x.magnitude

/-- An integer that orders the numbers that are not NaN; both zeros have key zero. -/
def orderKey (x : Binary64) : Int := if x.negative then -x.magnitude else x.magnitude

/-- Numerical comparison; a NaN is not below anything. -/
def le (x y : Binary64) : Bool := !x.isNaN && !y.isNaN && x.orderKey ≤ y.orderKey

/-- Numerical comparison; a NaN is not below anything. -/
def lt (x y : Binary64) : Bool := !x.isNaN && !y.isNaN && x.orderKey < y.orderKey

/-- Numerical equality: the zeros are equal, a NaN equals nothing. -/
def eq (x y : Binary64) : Bool := !x.isNaN && !y.isNaN && x.orderKey == y.orderKey

/-- The product of two finite numbers. -/
def mul (x y : Binary64) : Binary64 :=
  nearest (x.negative != y.negative) (x.fraction.1 * y.fraction.1) (x.fraction.2 * y.fraction.2)

/-- The quotient of a finite number by a finite number other than zero. -/
def div (x y : Binary64) : Binary64 :=
  nearest (x.negative != y.negative) (x.fraction.1 * y.fraction.2) (x.fraction.2 * y.fraction.1)

/-- The numerator of a finite number over the denominator `2 ^ 1074`. -/
def numerator (x : Binary64) : Int :=
  let n : Int := (x.significand <<< (x.exponent + 1074).toNat : Nat)
  if x.negative then -n else n

/-- The difference.  It is a NaN if one side is, or if both are the same infinity. -/
def sub (x y : Binary64) : Binary64 :=
  if x.isNaN || y.isNaN then nan
  else if x.isInfinite then
    if y.isInfinite && x.negative == y.negative then nan else x
  else if y.isInfinite then neg y
  else
    let n := x.numerator - y.numerator
    nearest (n < 0) n.natAbs (1 <<< 1074)

/-- The distance from one to the next larger number. -/
def epsilon : Binary64 := ofMagnitude false 0x3CB0000000000000

/-! ### Examples -/

example : ofInt 1 = ⟨0x3FF0000000000000⟩ := by decide +kernel
example : ofDecimal false 1 (-1) = ⟨0x3FB999999999999A⟩ := by decide +kernel
example : ofDecimal false 5 (-324) = ⟨1⟩ := by decide +kernel
example : ofDecimal false 24703282292062327 (-340) = ⟨0⟩ := by decide +kernel
example : ofDecimal true 17976931348623159 292 = ⟨0xFFF0000000000000⟩ := by decide +kernel
example : sub (ofDecimal false 3 (-1)) (ofDecimal false 1 (-1)) = ⟨0x3FC9999999999999⟩ := by
  decide +kernel

end Binary64

end Lineage
