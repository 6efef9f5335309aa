import Lineage.Decimal.Binary64

namespace Lineage.Decimal

/-!
# Reading numbers

The texts that are read as numbers, over lists of characters.

* `natural?` — one or more decimal digits,
* `integer?` — a natural number with an optional sign,
* `float?`   — a decimal number with optional sign, point and exponent, or a name of infinity or
  NaN; the value is the nearest binary64 number.
-/

/-- The value of a decimal digit. -/
def digit? (c : Char) : Option Nat :=
  if '0' ≤ c && c ≤ '9' then some (c.toNat - '0'.toNat) else none

/-- Whether a character is a decimal digit. -/
def isDigit (c : Char) : Bool := (digit? c).isSome

/-- The value of a run of digits, continuing a value read so far. -/
def valueFrom (acc : Nat) (ds : List Char) : Nat :=
  ds.foldl (fun n c => 10 * n + (digit? c).getD 0) acc

/-- One or more decimal digits. -/
def natural? (cs : List Char) : Option Nat :=
  if cs.isEmpty || !cs.all isDigit then none else some (valueFrom 0 cs)

/-- An optional sign: whether it is a minus, and the rest. -/
def signed : List Char → Bool × List Char
  | '-' :: cs => (true, cs)
  | '+' :: cs => (false, cs)
  | cs => (false, cs)

/-- A natural number with an optional sign. -/
def integer? (cs : List Char) : Option Int :=
  let (minus, ds) := signed cs
  (natural? ds).map fun n => if minus then -(n : Int) else n

/-- An exponent: a sign and digits. -/
def exponent? : List Char → Option Int
  | [] => some 0
  | e :: cs => if e == 'e' || e == 'E' then integer? cs else none

/-- An unsigned decimal: digits with a point somewhere among or around them, then an exponent. -/
def decimal? (minus : Bool) (cs : List Char) : Option Binary64 :=
  let whole := cs.takeWhile isDigit
  let rest := cs.dropWhile isDigit
  let (places, tail) :=
    match rest with
    | '.' :: r => (r.takeWhile isDigit, r.dropWhile isDigit)
    | r => ([], r)
  if whole.isEmpty && places.isEmpty then none
  else (exponent? tail).map fun e =>
    Binary64.ofDecimal minus (valueFrom (valueFrom 0 whole) places) (e - places.length)

/-- A binary64 number: a decimal, `inf`, `infinity` or `nan` in any case, with an optional sign. -/
def float? (cs : List Char) : Option Binary64 :=
  let (minus, rest) := signed cs
  let name := String.ofList (rest.map Char.toLower)
  if name == "inf" || name == "infinity" then some (.infinity minus)
  else if name == "nan" then some .nan
  else decimal? minus rest

/-! ### Small laws -/

/-- The value of digits, then of others. -/
theorem valueFrom_append (acc : Nat) (as bs : List Char) :
    valueFrom acc (as ++ bs) = valueFrom (valueFrom acc as) bs := by
  simp [valueFrom]

example : integer? "-12".toList = some (-12) := by decide
example : integer? "+".toList = none := by decide
example : float? ".5".toList = some ⟨0x3FE0000000000000⟩ := by decide +kernel
example : float? "1.e1".toList = some ⟨0x4024000000000000⟩ := by decide +kernel
example : float? ".".toList = none := by decide +kernel

end Lineage.Decimal
