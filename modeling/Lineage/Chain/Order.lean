import Lineage.Decimal.Literal

namespace Lineage

/-!
# The order of version names

Names are compared run by run, where a run of decimal digits counts as the number it denotes: `v2`
precedes `v10`.

* `runsOf` — a name cut into maximal runs of digits and of other characters,
* `Segment`, `naturalKey` — the runs as they are compared; numbers are capped at `2 ^ 64 - 1`,
* `versionOrder` — the comparison of two names,
* `stableSort` — sorting that leaves equal elements in their order.
-/

/-! ### Runs -/

/-- A maximal run of characters that are all digits or all no digits. -/
structure Run where
  digits : Bool
  chars : List Char
deriving DecidableEq

/-- One more character in front. -/
def Run.push (c : Char) : List Run → List Run
  | r :: rest =>
    if r.digits == Decimal.isDigit c then { r with chars := c :: r.chars } :: rest
    else ⟨Decimal.isDigit c, [c]⟩ :: r :: rest
  | [] => [⟨Decimal.isDigit c, [c]⟩]

/-- One more character in front adds that character in front of all others. -/
theorem Run.flatMap_push (c : Char) (rs : List Run) :
    (Run.push c rs).flatMap (·.chars) = c :: rs.flatMap (·.chars) := by
  cases rs with
  | nil => rfl
  | cons r rest => simp only [Run.push]; split <;> simp

/-- The maximal runs of a list of characters. -/
def runsOf : List Char → List Run
  | [] => []
  | c :: cs => Run.push c (runsOf cs)

/-! ### Keys -/

/-- A run as it is compared.  A text precedes a number. -/
inductive Segment where
  | text (s : String)
  | number (n : Nat)
deriving DecidableEq

/-- The largest number that is told apart. -/
def maxRunValue : Nat := 0xFFFFFFFFFFFFFFFF

/-- Digits count as the number that they denote, capped at the largest one. -/
def Run.segment (r : Run) : Segment :=
  if r.digits then .number (min (Decimal.valueFrom 0 r.chars) maxRunValue)
  else .text (String.ofList r.chars)

/-- The segments that a name is compared by. -/
def naturalKey (name : String) : List Segment := (runsOf name.toList).map Run.segment

/-- Texts among each other, then numbers among each other. -/
def Segment.compare : Segment → Segment → Ordering
  | .text a, .text b => Ord.compare a b
  | .text _, .number _ => .lt
  | .number _, .text _ => .gt
  | .number a, .number b => Ord.compare a b

/-- Lists compared element by element; a beginning precedes what it begins. -/
def compareLists (cmp : α → α → Ordering) : List α → List α → Ordering
  | [], [] => .eq
  | [], _ :: _ => .lt
  | _ :: _, [] => .gt
  | a :: as, b :: bs => (cmp a b).then (compareLists cmp as bs)

/-- The comparison of two version names. -/
def versionOrder (a b : String) : Ordering :=
  compareLists Segment.compare (naturalKey a) (naturalKey b)

/-! ### Sorting -/

/-- Put an element in front of the first one that it does not follow. -/
def insertBefore (cmp : α → α → Ordering) (x : α) : List α → List α
  | [] => [x]
  | y :: ys => if cmp x y == .gt then y :: insertBefore cmp x ys else x :: y :: ys

/-- Sorted, equal elements staying in their order. -/
def stableSort (cmp : α → α → Ordering) (xs : List α) : List α := xs.foldr (insertBefore cmp) []

/-- Inserting changes the order only. -/
theorem insertBefore_perm (cmp : α → α → Ordering) (x : α) (ys : List α) :
    (insertBefore cmp x ys).Perm (x :: ys) := by
  induction ys with
  | nil => exact .refl _
  | cons y ys ih =>
    simp only [insertBefore]
    split
    · exact (ih.cons y).trans (.swap x y ys)
    · exact .refl _

/-- Sorting neither adds nor drops. -/
theorem stableSort_perm (cmp : α → α → Ordering) (xs : List α) : (stableSort cmp xs).Perm xs := by
  induction xs with
  | nil => exact .refl _
  | cons x xs ih => exact (insertBefore_perm cmp x _).trans (ih.cons x)

example : versionOrder "a.v2" "a.v10" = .lt := by decide +kernel
example : versionOrder "v01" "v1" = .eq := by decide +kernel
example : versionOrder "v" "v1" = .lt := by decide +kernel

end Lineage
