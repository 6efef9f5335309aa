import Lineage.Wire.Field
import Lineage.Wire.Layout

namespace Lineage.Wire

/-!
# Decoded messages

* `Entry`   — the content of a known field,
* `Entries` — a message: its known fields in the order in which they came,
* `decode?` — the message that a sequence of bytes is.

A field may come several times.  Of a single value the last counts, of a list each is an item, and
the parts of a single message add up to one message.
-/

/-- The content of a known field. -/
inductive Entry where
  | number (n : Nat)
  | text (s : String)
  | message (entries : List (Nat × Entry))

/-- The known fields of a message, by number. -/
abbrev Entries := List (Nat × Entry)

/-! ### Decoding -/

/-- How many messages may be nested inside a request. -/
def maxNesting : Nat := 100

/-- The text that a sequence of bytes is, if it is UTF-8. -/
def text? (bs : Bytes) : Option String := String.fromUTF8? ⟨bs.toArray⟩

/-- The entries that a field gives: `nested` decodes a message inside it, and `levels` is how many
    levels of nesting are left. -/
def entries? (nested : MessageType → Bytes → Option Entries) (levels : Nat) (type : MessageType)
    (f : Field) : Option Entries :=
  match type.fieldType? f.number, f.payload with
  | none, p => if p.levels ≤ levels then some [] else none
  | some .number, .varint n => some [(f.number, .number n)]
  | some .double, .fixed64 => some []
  | some .text, .bytes bs => (text? bs).map fun s => [(f.number, .text s)]
  | some .bytes, .bytes _ => some []
  | some .numbers, .varint n => some [(f.number, .number n)]
  | some .numbers, .bytes bs => (varints? bs).map fun ns => ns.map fun n => (f.number, .number n)
  | some (.message t), .bytes bs => (nested t bs).map fun es => [(f.number, .message es)]
  | some _, _ => none

/-- A message in which at most so many others are nested. -/
def decodeWithin : Nat → MessageType → Bytes → Option Entries
  | 0, type, bs => do
    let parts ← (← fields? bs).mapM (entries? (fun _ _ => none) 0 type)
    return parts.flatten
  | levels + 1, type, bs => do
    let parts ← (← fields? bs).mapM (entries? (decodeWithin levels) (levels + 1) type)
    return parts.flatten

/-- The message of a type that a sequence of bytes is. -/
def decode? (type : MessageType) (bs : Bytes) : Option Entries := decodeWithin maxNesting type bs

/-! ### Reading decoded messages -/

namespace Entries

/-- All integers under a number, in their order. -/
def numbers (es : Entries) (number : Nat) : List Nat :=
  es.filterMap fun
    | (k, .number n) => if k == number then some n else none
    | _ => none

/-- All texts under a number, in their order. -/
def texts (es : Entries) (number : Nat) : List String :=
  es.filterMap fun
    | (k, .text s) => if k == number then some s else none
    | _ => none

/-- All messages under a number, in their order. -/
def messages (es : Entries) (number : Nat) : List Entries :=
  es.filterMap fun
    | (k, .message inner) => if k == number then some inner else none
    | _ => none

/-- The last integer under a number. -/
def number? (es : Entries) (number : Nat) : Option Nat := (es.numbers number).getLast?

/-- The last text under a number. -/
def text? (es : Entries) (number : Nat) : Option String := (es.texts number).getLast?

/-- The parts of a single message added up. -/
def message? (es : Entries) (number : Nat) : Option Entries :=
  match es.messages number with
  | [] => none
  | parts => some parts.flatten

/-- A signed integer of thirty-two bits; higher bits are dropped. -/
def int32 (n : Nat) : Int := (n : Int).bmod 0x100000000

/-- An integer of thirty-two bits. -/
def int? (es : Entries) (number : Nat) : Option Int := (es.number? number).map int32

/-- A truth value. -/
def flag? (es : Entries) (number : Nat) : Option Bool := (es.number? number).map (· != 0)

end Entries

end Lineage.Wire
