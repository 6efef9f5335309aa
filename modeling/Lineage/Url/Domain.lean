import Lineage.Text.Blank
import Lineage.Url.Address
import Lineage.Url.Characters
import Lineage.Url.Direction
import Lineage.Url.Joining
import Lineage.Url.Punycode

namespace Lineage.Url

/-!
# Domain names

* `decodePercent` — the bytes that a text with percent signs stands for,
* `labels?` — the labels of a domain name in their readable form; absent if the name is not valid,
* `isHost`  — whether a text names a host.

A label that starts with `xn--` is an encoded one.  Marks that compose with the letter before them
are taken as they are.
-/

/-- The hexadecimal digit that a byte is. -/
def hexValue? (b : UInt8) : Option Nat :=
  let c := Char.ofNat b.toNat
  if isHexDigit c then some (digitValue c) else none

/-- The bytes of a text in which a percent sign and two hexadecimal digits stand for one byte. -/
def decodePercent : List UInt8 → List UInt8
  | b :: c :: d :: more =>
    match b, hexValue? c, hexValue? d with
    | 0x25, some m, some n => UInt8.ofNat (16 * m + n) :: decodePercent more
    | _, _, _ => b :: decodePercent (c :: d :: more)
  | bs => bs

/-- The characters of a text after percent signs are decoded, if they are UTF-8. -/
def decoded? (text : List Char) : Option (List Char) :=
  (String.fromUTF8? ⟨(decodePercent (String.ofList text).toUTF8.toList).toArray⟩).map String.toList

/-- Characters in canonical form; absent if one of them is refused. -/
def canonical? (cs : List Char) : Option (List Char) :=
  (cs.mapM fun c =>
    match fate c with
    | .dropped => some []
    | .refused => none
    | .replaced ds => some ds).map List.flatten

/-- Whether a label has no characters but those of ASCII. -/
def isAscii (label : List Char) : Bool := label.all fun c => c.toNat < 0x80

/-- How many characters a label may have, and how many its encoded form. -/
def maxLabel : Nat := 1000

/-- Whether a label is well formed apart from its direction. -/
def isLabel (label : List Char) : Bool :=
  isAscii label
    || (!label.head?.any isMark && areJoinersPlaced [] label && label.length ≤ maxLabel)

/-- The readable form of a label in canonical form. -/
def label? (label : List Char) : Option (List Char) :=
  match Text.after? "xn--".toList label with
  | none => if isLabel label then some label else none
  | some encoded =>
    if !isAscii encoded || encoded.getLast?.all (· == '-') || 2 * maxLabel < encoded.length
      then none
    else
      match Punycode.decode? encoded with
      | some decoded =>
        if decoded.all isCanonical && isLabel decoded then some decoded else none
      | none => none

/-- The labels of a domain name in their readable form. -/
def labels? (name : List Char) : Option (List (List Char)) := do
  let labels ← (Text.pieces '.' (← canonical? name)).mapM label?
  if labels.any (·.any isRightToLeft) && !labels.all isReadable then none else some labels

/-- Whether a text names a host: an address in brackets, an address of four bytes, or a domain. -/
def isHost (text : List Char) : Bool :=
  match text with
  | '[' :: rest => rest.getLast? == some ']' && isAddress6 rest.dropLast
  | _ =>
    match (decoded? text).bind labels? with
    | none => false
    | some labels => labels != [[]] && (!endsInNumber labels || isAddress4 labels)

end Lineage.Url
