namespace Lineage.Url.Punycode

/-!
# Encoded labels

A label with characters outside of ASCII is written with its ASCII characters first; behind the last
hyphen each other character is given by how far one has to count, over all characters and all places
of the label, from the one before it.

* `decode?` — the label that was encoded.
-/

/-- The value of a digit: letters, then figures. -/
def digit? (c : Char) : Option Nat :=
  if 'a' ≤ c && c ≤ 'z' then some (c.toNat - 'a'.toNat)
  else if 'A' ≤ c && c ≤ 'Z' then some (c.toNat - 'A'.toNat)
  else if '0' ≤ c && c ≤ '9' then some (c.toNat - '0'.toNat + 26)
  else none

/-- A digit below its threshold ends a number; the threshold rises with the place of the digit. -/
def threshold (bias place : Nat) : Nat := min 26 (max 1 (place - bias))

/-- The number at the start of the input, `weight` being the weight of its first digit, and what
    follows it. -/
def number? (bias : Nat) : Nat → Nat → List Char → Option (Nat × List Char)
  | _, _, [] => none
  | place, weight, c :: cs => do
    let d ← digit? c
    let t := threshold bias place
    if d < t then some (d * weight, cs)
    else
      let (n, rest) ← number? bias (place + 36) (weight * (36 - t)) cs
      some (d * weight + n, rest)

/-- How often a number is divided until it is small, and what is left. -/
def scaled : Nat → Nat → Nat × Nat
  | 0, n => (0, n)
  | fuel + 1, n =>
    if n ≤ 455 then (0, n)
    else
      let (k, left) := scaled fuel (n / 35)
      (k + 1, left)

/-- The bias for the number that comes next. -/
def adapt (count size : Nat) (first : Bool) : Nat :=
  let n := if first then count / 700 else count / 2
  let (k, left) := scaled 64 (n + n / size)
  36 * k + 36 * left / (left + 38)

/-- A character put into a label at some place. -/
def insertAt (place : Nat) (c : Char) (label : List Char) : List Char :=
  label.take place ++ c :: label.drop place

/-- A label with the characters put in that the input counts up to.  The first argument is no
    smaller than the length of the input. -/
def extendWithin : Nat → List Char → Nat → Nat → Nat → List Char → Option (List Char)
  | _, label, _, _, _, [] => some label
  | 0, _, _, _, _, _ :: _ => none
  | fuel + 1, label, code, place, bias, cs => do
    let (count, rest) ← number? bias 36 1 cs
    let size := label.length + 1
    let total := place + count
    let code := code + total / size
    let next := total % size
    if h : code.isValidChar then
      extendWithin fuel (insertAt next (Char.ofNatAux code h) label) code (next + 1)
        (adapt count size (place == 0)) rest
    else none

/-- The label that was encoded. -/
def decode? (cs : List Char) : Option (List Char) :=
  let encoded := (cs.reverse.takeWhile (· != '-')).reverse
  let basic := cs.take (cs.length - encoded.length - 1)
  if basic.isEmpty && encoded.length < cs.length then none
  else extendWithin encoded.length basic 0x80 0 72 encoded

example : decode? "mnchen-3ya".toList = some "münchen".toList := by decide
example : decode? "zca".toList = some "ß".toList := by decide
example : decode? "ls8h".toList = some "💩".toList := by decide

end Lineage.Url.Punycode
