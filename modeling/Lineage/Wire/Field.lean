import Lineage.Wire.Varint

namespace Lineage.Wire

/-!
# Fields of encoded messages

An encoded message is a sequence of fields.  Each has a key, which holds its number and the shape of
what follows.

* `Payload` — what follows a key,
* `Field`   — a number and its payload,
* `fields?` — the fields of an encoded message,
* `varints?` — the integers of a packed list.

A group runs up to the end mark of its number; what it holds is only measured, since no known field
is a group.
-/

/-- What follows the key of a field. -/
inductive Payload where
  | varint (n : Nat)
  | fixed64
  | bytes (bs : Bytes)
  /-- A group, and how many groups are nested inside it. -/
  | group (inside : Nat)
  | fixed32

/-- How many levels of nesting it takes to skip a payload. -/
def Payload.levels : Payload → Nat
  | group inside => inside + 1
  | _ => 1

/-- One field of an encoded message. -/
structure Field where
  number : Nat
  payload : Payload

/-- The first bytes of the input, if it has so many, and what follows them. -/
def splitBytes? (n : Nat) (bs : Bytes) : Option (Bytes × Bytes) :=
  let taken := bs.take n
  if taken.length == n then some (taken, bs.drop n) else none

/-- A run of bytes with its length in front. -/
def counted? (bs : Bytes) : Option (Bytes × Bytes) := do
  let (n, rest) ← varint? bs
  splitBytes? n rest

/-- The fields up to the end mark of the group that is open, or, if none is, up to the end of the
    input; and what follows.  The first argument exceeds the length of the input. -/
def fieldsWithin : Nat → Option Nat → Bytes → Option (List Field × Bytes)
  | 0, _, _ => none
  | _ + 1, none, [] => some ([], [])
  | fuel + 1, opened, bs => do
    let (key, rest) ← varint? bs
    let number := key / 8
    if number = 0 || 0x100000000 ≤ key then none
    else
      let field (payload : Payload) (rest : Bytes) : Option (List Field × Bytes) :=
        (fieldsWithin fuel opened rest).map fun r => (⟨number, payload⟩ :: r.1, r.2)
      match key % 8 with
      | 0 => do
        let (n, rest) ← varint? rest
        field (.varint n) rest
      | 1 => do
        let (_, rest) ← splitBytes? 8 rest
        field .fixed64 rest
      | 2 => do
        let (inside, rest) ← counted? rest
        field (.bytes inside) rest
      | 3 => do
        let (inside, rest) ← fieldsWithin fuel (some number) rest
        field (.group ((inside.map (·.payload.levels)).foldl max 0)) rest
      | 4 => if opened = some number then some ([], rest) else none
      | 5 => do
        let (_, rest) ← splitBytes? 4 rest
        field .fixed32 rest
      | _ => none

/-- The fields of an encoded message. -/
def fields? (bs : Bytes) : Option (List Field) :=
  (fieldsWithin (bs.length + 1) none bs).map (·.1)

/-- The integers that make up the input, which is shorter than the first argument. -/
def varintsWithin : Nat → Bytes → Option (List Nat)
  | 0, _ => none
  | _ + 1, [] => some []
  | fuel + 1, bs => do
    let (n, rest) ← varint? bs
    return n :: (← varintsWithin fuel rest)

/-- The integers of a packed list. -/
def varints? (bs : Bytes) : Option (List Nat) := varintsWithin (bs.length + 1) bs

/-! ### Writing -/

/-- A run of bytes as the field of a number. -/
def bytesField (number : Nat) (bs : Bytes) : Bytes :=
  varint (8 * number + 2) ++ varint bs.length ++ bs

/-- A text as the field of a number. -/
def textField (number : Nat) (s : String) : Bytes := bytesField number s.toUTF8.toList

/-- An integer as the field of a number. -/
def varintField (number n : Nat) : Bytes := varint (8 * number) ++ varint n

end Lineage.Wire
