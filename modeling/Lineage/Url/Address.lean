import Lineage.Text.Blank

namespace Lineage.Url

/-!
# Addresses of hosts

* `endsInNumber` — whether a host is meant to be an address of four bytes,
* `isAddress4`   — whether it is one: up to four decimal, octal or hexadecimal numbers, of which the
  last fills the bytes that are left,
* `isAddress6`   — whether a text is an address of eight groups, with at most one run of them left
  out.
-/

/-- A digit in base sixteen, of either case. -/
def isHexDigit (c : Char) : Bool :=
  ('0' ≤ c && c ≤ '9') || ('a' ≤ c && c ≤ 'f') || ('A' ≤ c && c ≤ 'F')

/-- The value of a digit in some base. -/
def digitValue (c : Char) : Nat :=
  if c.isDigit then c.toNat - '0'.toNat else c.toLower.toNat - 'a'.toNat + 10

/-- The value of digits in some base. -/
def valueOf (base : Nat) (cs : List Char) : Nat :=
  cs.foldl (fun n c => n * base + digitValue c) 0

/-! ### Four bytes -/

/-- A number of an address: hexadecimal behind `0x`, octal behind another zero, else decimal. -/
def number? (cs : List Char) : Option Nat :=
  match cs with
  | [] => none
  | '0' :: 'x' :: ds => if ds.all isHexDigit then some (valueOf 16 ds) else none
  | '0' :: d :: ds =>
    if (d :: ds).all (fun c => '0' ≤ c && c ≤ '7') then some (valueOf 8 (d :: ds)) else none
  | ds => if ds.all Char.isDigit then some (valueOf 10 ds) else none

/-- The labels of a host without an empty one at the end. -/
def dropRoot (labels : List (List Char)) : List (List Char) :=
  if labels.getLast? == some [] then labels.dropLast else labels

/-- Whether the last label of a host is a number, also one that is not well formed. -/
def endsInNumber (labels : List (List Char)) : Bool :=
  (dropRoot labels).getLast?.any fun l => (!l.isEmpty && l.all Char.isDigit) || (number? l).isSome

/-- Whether the labels of a host are an address of four bytes. -/
def isAddress4 (labels : List (List Char)) : Bool :=
  match ((dropRoot labels).mapM number?).map List.reverse with
  | some (last :: before) =>
    before.length ≤ 3 && before.all (· ≤ 255) && last < 1 <<< (8 * (4 - before.length))
  | _ => false

/-! ### Eight groups -/

/-- One to four hexadecimal digits. -/
def isGroup (cs : List Char) : Bool := 1 ≤ cs.length && cs.length ≤ 4 && cs.all isHexDigit

/-- A decimal number below 256 without a superfluous zero. -/
def isByte (cs : List Char) : Bool :=
  1 ≤ cs.length && cs.length ≤ 3 && cs.all Char.isDigit && valueOf 10 cs ≤ 255
    && (cs.head? != some '0' || cs.length == 1)

/-- Four bytes between points stand for two groups. -/
def isDotted (cs : List Char) : Bool :=
  let parts := Text.pieces '.' cs
  parts.length == 4 && parts.all isByte

/-- How many groups a text holds, each separated from the next by a colon; only the last ones may be
    written as bytes. -/
def groups? (mayEndDotted : Bool) (cs : List Char) : Option Nat :=
  if cs.isEmpty then some 0
  else
    let parts := Text.pieces ':' cs
    if parts.all isGroup then some parts.length
    else if mayEndDotted && parts.dropLast.all isGroup && parts.getLast?.any isDotted then
      some (parts.length + 1)
    else none

/-- What stands before and behind the first pair of colons. -/
def splitAtGap? : List Char → Option (List Char × List Char)
  | ':' :: ':' :: rest => some ([], rest)
  | c :: rest => (splitAtGap? rest).map fun p => (c :: p.1, p.2)
  | [] => none

/-- Whether a text is an address of eight groups.  A pair of colons stands for one group or more. -/
def isAddress6 (cs : List Char) : Bool :=
  match splitAtGap? cs with
  | none => groups? true cs == some 8
  | some (before, after) =>
    match groups? false before, groups? true after with
    | some m, some n => m + n ≤ 7
    | _, _ => false

end Lineage.Url
