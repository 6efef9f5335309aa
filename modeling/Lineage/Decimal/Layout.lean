import Lineage.Decimal.Shortest

namespace Lineage.Decimal

/-!
# Layouts of decimal numbers

A layout says how the shortest digits of a number are written down.

* `Layout.plain`   — always positional, an integer without a fraction (bounds in unit texts),
* `Layout.literal` — positional between `0.0001` and `10 ^ 16`, otherwise with an exponent, an
  integer with `.0` (values in diagnostics),
* `Layout.json`    — positional from `0.00001` on, and with a plus sign before large exponents.
-/

/-- How the digits of a number are written. -/
structure Layout where
  /-- The powers of the leading digit that are written positionally; all of them if absent. -/
  positional : Option (Int × Int)
  /-- What follows an integer that is written positionally. -/
  integerTail : String
  /-- What precedes an exponent that is not negative. -/
  exponentPlus : String
  tie : Tie
deriving DecidableEq

namespace Layout

/-- All digits and no exponent, as literals of rules are written. -/
def plain : Layout := ⟨none, "", "", .up⟩

/-- As diagnostics write numbers: with a point at least, and an exponent for the very small and
    large. -/
def literal : Layout := ⟨some (-4, 15), ".0", "", .up⟩

/-- As documents write numbers: an exponent always has its sign. -/
def json : Layout := ⟨some (-5, 15), ".0", "+", .toEven⟩

end Layout

/-- `n` zeros. -/
def zeros (n : Nat) : String := String.ofList (List.replicate n '0')

/-- Digits with the point moved: the first digit has the place value `10 ^ lead`. -/
def positionalText (integerTail : String) (digits : List Char) (lead : Int) : String :=
  if lead < 0 then "0." ++ zeros (-lead - 1).toNat ++ String.ofList digits
  else
    let whole := lead.toNat + 1
    if digits.length ≤ whole then
      String.ofList digits ++ zeros (whole - digits.length) ++ integerTail
    else String.ofList (digits.take whole) ++ "." ++ String.ofList (digits.drop whole)

/-- Digits with the point behind the first one, and the exponent. -/
def scientificText (plus : String) (digits : List Char) (lead : Int) : String :=
  String.ofList (digits.take 1)
    ++ (if digits.length ≤ 1 then "" else "." ++ String.ofList (digits.drop 1))
    ++ "e" ++ (if 0 ≤ lead then plus else "") ++ toString lead

/-- The text of a positive finite number. -/
def positiveText (layout : Layout) (x : Binary64) : String :=
  let (c, k) := shortest layout.tie x
  let digits := Nat.toDigits 10 c
  let lead := k + digits.length - 1
  match layout.positional with
  | some (low, high) =>
    if low ≤ lead && lead ≤ high then positionalText layout.integerTail digits lead
    else scientificText layout.exponentPlus digits lead
  | none => positionalText layout.integerTail digits lead

/-- The text of a number. -/
def Layout.text (layout : Layout) (x : Binary64) : String :=
  if x.isNaN then "NaN"
  else (if x.negative then "-" else "")
    ++ if x.isInfinite then "inf"
      else if x.isZero then "0" ++ layout.integerTail
      else positiveText layout x

example : Layout.plain.text (.ofDecimal true 125 (-2)) = "-1.25" := by decide +kernel
example : Layout.plain.text (.ofDecimal false 1 21) = "1000000000000000000000" := by decide +kernel
example : Layout.literal.text (.ofDecimal false 1 16) = "1e16" := by decide +kernel
example : Layout.literal.text (.ofDecimal false 15 (-6)) = "1.5e-5" := by decide +kernel
example : Layout.json.text (.ofDecimal false 1 (-5)) = "0.00001" := by decide +kernel
example : Layout.json.text (.ofDecimal false 1 21) = "1e+21" := by decide +kernel
example : Layout.json.text (.ofDecimal false 1 2) = "100.0" := by decide +kernel
example : Layout.json.text (.zero true) = "-0.0" := by decide +kernel

end Lineage.Decimal
