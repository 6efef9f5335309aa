import Lineage.Decimal.Binary64

namespace Lineage.Decimal

open Binary64

/-!
# The shortest decimal of a binary64 number

Every decimal strictly closer to a number than half the way to its neighbours reads back as that
number; half the way itself does so iff the significand is even.

* `Window` — the decimals that read back, in quarters of a unit of the last binary place,
* `hit?`   — the point of the grid `10 ^ k` that is nearest to the number, if it reads back,
* `shortest` — the hit of the coarsest grid that has one: the fewest digits, and of those the
  nearest.
-/

/-- Which of two equally near decimals is taken. -/
inductive Tie where
  | toEven
  | up
deriving DecidableEq

/-- The positive decimals that read back as `m · 2 ^ q`, in units of `2 ^ (q - 2)`. -/
structure Window where
  low : Nat
  mid : Nat
  high : Nat
  closed : Bool
  unit : Int

/-- Below a power of two the neighbour is nearer, so the lower half-way point is nearer too. -/
def windowOf (x : Binary64) : Window :=
  let m := x.significand
  let step := if m == exponentBit && 2 * exponentBit ≤ x.magnitude then 1 else 2
  { low := 4 * m - step, mid := 4 * m, high := 4 * m + 2, closed := m % 2 == 0,
    unit := x.exponent - 2 }

/-- Both grids over one denominator: a point `c` of the grid `10 ^ k` is `c · b`, a multiple `n` of
    the window's unit is `n · a`. -/
def commonScale (w : Window) (k : Int) : Nat × Nat :=
  (Nat.pow 10 (-k).toNat <<< w.unit.toNat, Nat.pow 10 k.toNat <<< (-w.unit).toNat)

/-- The nearest point of the grid `10 ^ k` that lies in the window. -/
def hit? (tie : Tie) (w : Window) (k : Int) : Option Nat :=
  let (a, b) := commonScale w k
  let inside (c : Nat) : Bool :=
    if w.closed then w.low * a ≤ c * b && c * b ≤ w.high * a
    else w.low * a < c * b && c * b < w.high * a
  let below := w.mid * a / b
  match inside below, inside (below + 1) with
  | true, true =>
    let down := w.mid * a - below * b
    let up := (below + 1) * b - w.mid * a
    if down < up then some below
    else if up < down then some (below + 1)
    else if tie == .toEven && below % 2 == 0 then some below
    else some (below + 1)
  | true, false => some below
  | false, true => some (below + 1)
  | false, false => none

/-- The digits `c` and the power `k` of the shortest decimal `c · 10 ^ k` of a finite number other
    than zero.  The coarsest grid tried has a spacing larger than the number; seventeen digits
    always suffice. -/
def shortest (tie : Tie) (x : Binary64) : Nat × Int :=
  let w := windowOf x
  let top : Int := ((Nat.log2 x.significand : Int) + x.exponent) * 30103 / 100000 + 2
  ((List.range 24).findSome? fun (i : Nat) =>
    (hit? tie w (top - i)).map fun c => (c, top - i)).getD (0, 0)

example : shortest .up (ofDecimal false 1 (-1)) = (1, -1) := by decide +kernel
example : shortest .up ⟨1⟩ = (5, -324) := by decide +kernel
example : shortest .up (ofDecimal false 1 23) = (1, 23) := by decide +kernel
example : shortest .up (ofDecimal false 17976931348623157 292) = (17976931348623157, 292) := by
  decide +kernel

end Lineage.Decimal
