import Lineage.Json.Basic

namespace Lineage

/-!
# Values as JSON

* `ToJson` — the types whose values have a JSON form.

Texts, numbers and truth values stand for themselves, lists are arrays, and what is absent is
`null`.  A structure is an object of its members; one of several cases is a text, or an object that
names the case.
-/

/-- Types whose values have a JSON form. -/
class ToJson (α : Type) where
  toJson : α → Json

export ToJson (toJson)

instance : ToJson Json := ⟨id⟩
instance : ToJson Bool := ⟨.bool⟩
instance : ToJson Int := ⟨.integer⟩
instance : ToJson Nat := ⟨fun n => .integer n⟩
instance : ToJson Binary64 := ⟨.float⟩
instance : ToJson String := ⟨.string⟩

instance {α : Type} [ToJson α] : ToJson (List α) := ⟨fun items => .array (items.map toJson)⟩
instance {α : Type} [ToJson α] : ToJson (Array α) := ⟨fun items => toJson items.toList⟩

instance {α : Type} [ToJson α] : ToJson (Option α) := ⟨fun
  | some a => toJson a
  | none => .null⟩

/-- A table by name is an object. -/
def Json.ofTable {α : Type} [ToJson α] (entries : List (String × α)) : Json :=
  .object (entries.map fun e => (e.1, toJson e.2))

/-- An object that says which of several cases it is. -/
def Json.ofCase (key name : String) (entries : List (String × Json)) : Json :=
  .object ((key, .string name) :: entries)

end Lineage
