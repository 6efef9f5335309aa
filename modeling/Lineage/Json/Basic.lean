import Lineage.Json.Document
import Lineage.Sorted

namespace Lineage

/-!
# JSON values

* `Json` — a value: integers within `-2 ^ 63 … 2 ^ 64 - 1` stay integers, all other numbers are
  binary64; objects are sorted by key and hold each key once.
* `Json.NumberText.value?` — the value of a number as written.
* `Json.ofDocument?` — the value of a document that nests no deeper than a given bound.
-/

/-- A JSON value. -/
inductive Json where
  | null
  | bool (b : Bool)
  | integer (n : Int)
  | float (x : Binary64)
  | string (s : String)
  | array (items : List Json)
  | object (entries : List (String × Json))

namespace Json

instance : Inhabited Json := ⟨null⟩

/-! ### Numbers

A number is read from a significand below `2 ^ 64`: digits of the integral part that do not fit any
more only count as powers of ten, digits behind the point that do not fit are dropped.  The
significand is rounded once, and once more by the multiplication with a power of ten or the
division by one. -/

/-- Digits taken into a significand while it stays below `2 ^ 64`: the significand, and how many
    digits are left over. -/
def takeDigits (acc : Nat) : List Char → Nat × Nat
  | [] => (acc, 0)
  | c :: cs =>
    let n := 10 * acc + (Decimal.digit? c).getD 0
    if n < 0x10000000000000000 then takeDigits n cs else (acc, cs.length + 1)

/-- The binary64 number nearest to a power of ten. -/
def powerOfTen (n : Nat) : Binary64 := .ofDecimal false 1 n

/-- A magnitude times a power of ten.  Absent if the result is infinite. -/
def scale? (significand : Nat) (exp10 : Int) : Option Binary64 :=
  let x := Binary64.nearest false significand 1
  if 0 ≤ exp10 then
    if x.isZero then some x
    else if 308 < exp10 then none
    else
      let y := x.mul (powerOfTen exp10.toNat)
      if y.isInfinite then none else some y
  else if -308 ≤ exp10 then some (x.div (powerOfTen (-exp10).toNat))
  else if exp10 < -616 then some (.zero false)
  else some ((x.div (powerOfTen 308)).div (powerOfTen (-exp10 - 308).toNat))

/-- The value of a number.  Absent if it is too large for binary64. -/
def NumberText.value? (t : NumberText) : Option Json :=
  let (whole, left) := takeDigits 0 t.whole
  if t.places.isNone && t.exponent.isNone && left = 0
      && (!t.minus || (0 < whole && whole ≤ 0x8000000000000000)) then
    some (.integer (if t.minus then -(whole : Int) else whole))
  else
    let places := t.places.getD []
    let (significand, dropped) := takeDigits whole places
    let exp10 : Int := t.exponent.getD 0 + left - (places.length - dropped : Nat)
    (scale? significand exp10).map fun x => .float (if t.minus then x.neg else x)

/-! ### Values of documents -/

/-- How many containers may enclose a value that is used. -/
def maxDepth : Nat := 127

/-- The value of a document that nests at most `depth` containers, each text whole and each number
    in range; of two entries with one key the last counts. -/
def ofDocument? : Nat → Document → Option Json
  | _, .null => some .null
  | _, .bool b => some (.bool b)
  | _, .number n => n.value?
  | _, .text s => s.map .string
  | 0, .array _ => none
  | depth + 1, .array items => (items.mapM (ofDocument? depth)).map .array
  | 0, .object _ => none
  | depth + 1, .object entries =>
    (entries.mapM fun (e : Option String × Document) =>
      do return (← e.1, ← ofDocument? depth e.2)).map fun es => .object (Sorted.ofList es)

/-- The value that a text is, if it is one. -/
def ofText? (s : String) : Option Json := (Document.ofText? s).bind (ofDocument? maxDepth)

end Json

end Lineage
