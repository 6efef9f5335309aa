import Lineage.Proofs.Chain.Counterpart
import Lineage.Proofs.Plan.Provided
import Lineage.Proofs.Service.Enumeration
import Lineage.Service.Record

namespace Lineage

/-!
# Records of a message

What it means for a record to be one of a message, and which records it holds.

* `Chain.entry` — the field that an entry of a record sets: a plain field, or the variant of a
  oneof,
* `Chain.fits` — a value fits a field: scalars by kind, enum values by name, messages by name,
  `Chain.fitsOneLoosely` — or enum values under any name,
* `Chain.Typed` — a record whose entries all set fields of the message, to values that fit;
  `Chain.TypedBy` — for any such test of values,
* `Chain.children` — the records in the entries of a record, `Chain.Holds` — those at any depth,
  itself included,
* `Chain.Everywhere` — something holds of all of them, `Chain.WellTyped`, `Chain.LooselyTyped` —
  they are typed,
* `Chain.Received`, `Chain.VariantsReceived` — what must be received is set.
-/

open Service

/-! ### Values of a field -/

/-- A scalar kind has values of one sort. -/
def ScalarKind.admits : ScalarKind → Value → Bool
  | double, .float _ | float, .float _ => true
  | int32, .int _ | int64, .int _ | sint32, .int _ | sint64, .int _ | sfixed32, .int _
  | sfixed64, .int _ => true
  | uint32, .uint _ | uint64, .uint _ | fixed32, .uint _ | fixed64, .uint _ => true
  | bool, .bool _ => true
  | string, .str _ => true
  | bytes, .bytes _ => true
  | _, _ => false

namespace Chain

variable {c : Chain}

/-- A single value fits a field.  Of a type outside the chain any record and any name does. -/
def fitsOne (c : Chain) (f : Field) (v : Value) : Bool :=
  match f.kind, f.typeRef, v with
  | .scalar k, _, v => k.admits v
  | .message, some (.message n), .message name _ => name == (c.message n).fullName
  | .message, some (.external _), .message _ _ => true
  | .enumeration, some (.enumeration e), .enumeration name => (c.findValue e name).isSome
  | .enumeration, some (.external _), .enumeration _ => true
  | _, _, _ => false

/-- A value fits a field: a list if it is repeated, or a single value. -/
def fits (c : Chain) (f : Field) (v : Value) : Bool :=
  match f.repeated, v with
  | true, .list items => items.all (c.fitsOne f)
  | true, _ => false
  | false, v => c.fitsOne f v

/-- A single value fits a field, whatever a value of an enum is called. -/
def fitsOneLoosely (c : Chain) (f : Field) (v : Value) : Bool :=
  c.fitsOne f v || match f.kind, f.typeRef, v with
    | .enumeration, some (.enumeration _), .enumeration _ => true
    | _, _, _ => false

/-- A value is as a field asks for if single values are so: a list of them if the field is repeated,
    or one of them. -/
def fitsBy (one : Field → Value → Bool) (f : Field) (v : Value) : Bool :=
  match f.repeated, v with
  | true, .list items => items.all (one f)
  | true, _ => false
  | false, v => one f v

/-- A value fits a field if its elements do. -/
theorem fits_eq_fitsBy (f : Field) (v : Value) : c.fits f v = fitsBy c.fitsOne f v := by
  unfold fits fitsBy
  cases f.repeated <;> cases v <;> rfl

/-- The records in a value of a field, with the message that they are of. -/
def recordsOf (f : Field) (v : Value) : List (MessageId × Record) :=
  match f.kind, f.typeRef with
  | .message, some (.message n) => v.elements.filterMap fun u => u.record?.map (n, ·)
  | _, _ => []

/-- Only a message field of a type of the chain holds records of a message. -/
theorem recordsOf_message {f : Field} {n : MessageId} (hkind : f.kind = .message)
    (htype : f.typeRef = some (.message n)) (v : Value) :
    recordsOf f v = v.elements.filterMap fun u => u.record?.map (n, ·) := by
  simp only [recordsOf, hkind, htype]

/-- The records in a value are of the message that the field refers to. -/
theorem mem_recordsOf {f : Field} {v : Value} {x : MessageId × Record} (h : x ∈ recordsOf f v) :
    f.kind = .message ∧ f.typeRef = some (.message x.1) := by
  unfold recordsOf at h
  split at h
  · rename_i n hkind htype
    obtain ⟨u, -, hu⟩ := List.mem_filterMap.mp h
    obtain ⟨s, -, rfl⟩ := Option.map_eq_some_iff.mp hu
    exact ⟨hkind, htype⟩
  · cases h

/-- What is copied, or shared, holds no records of a message of the chain. -/
theorem recordsOf_of_copied {f g : Field}
    (h : classifyPair f g = .copy ∨ classifyPair f g = .shared) (v : Value) :
    recordsOf f v = [] := by
  by_contra hne
  obtain ⟨x, hx⟩ := List.exists_mem_of_ne_nil _ hne
  obtain ⟨hkind, htype⟩ := mem_recordsOf hx
  unfold classifyPair at h
  rw [hkind, htype] at h
  split at h
  · obtain h | h := h <;> cases h
  · cases hg : g.kind <;> rw [hg] at h <;> cases ht : g.typeRef with
    | none => rw [ht] at h; obtain h | h := h <;> cases h
    | some t =>
      rw [ht] at h
      cases t <;> obtain h | h := h <;> cases h

/-- A single value is no list. -/
theorem elements_of_fitsOne {f : Field} {v : Value} (h : c.fitsOne f v = true) :
    v.elements = [v] := by
  cases v with
  | list items =>
    have hnot : c.fitsOne f (.list items) = false := by
      unfold fitsOne
      cases f.kind with
      | scalar k => cases k <;> rfl
      | _ => rcases f.typeRef with _ | _ | _ | _ <;> rfl
    cases hnot.symm.trans h
  | _ => rfl

/-- A value that fits as one has no other elements. -/
theorem elements_of_fitsOneLoosely {f : Field} {v : Value} (h : c.fitsOneLoosely f v = true) :
    v.elements = [v] := by
  obtain h | h := Bool.or_eq_true_iff.mp h
  · exact elements_of_fitsOne h
  · split at h
    · rfl
    · cases h

/-- A list of single values holds the records that they hold. -/
theorem recordsOf_list {f : Field} {items : List Value} (hsingle : ∀ v ∈ items, v.elements = [v]) :
    recordsOf f (.list items) = items.flatMap (recordsOf f) := by
  unfold recordsOf
  split
  · rename_i n _ _
    change items.filterMap (fun u => u.record?.map (n, ·)) = _
    rw [List.filterMap_eq_flatMap_toList]
    refine List.flatMap_congr fun v hv => ?_
    cases hrecord : v.record? <;> simp [hsingle v hv, hrecord]
  · simp

/-! ### Entries of a record -/

/-- The field that an entry of a record of a message sets, a plain one or the variant of a oneof,
    and what it sets it to. -/
def entry (c : Chain) (m : MessageId) (name : String) : Value → Option (FieldId × Value)
  | .oneof variant v => ((c.findOneof m name).bind (c.findVariant · variant)).map (·, v)
  | v => ((c.findField m name).filter fun f => (c.field f).oneof.isNone).map (·, v)

/-- An entry sets the plain field of its name, or a variant of the oneof of its name. -/
theorem entry_eq_some {m : MessageId} {name : String} {v u : Value} {f : FieldId}
    (h : c.entry m name v = some (f, u)) :
    (f ∈ (c.message m).fields ∧ (c.field f).oneof = none ∧ (c.field f).name = name ∧ u = v) ∨
      ∃ o ∈ (c.message m).oneofs, f ∈ (c.oneof o).fields ∧ (c.oneof o).name = name ∧
        v = .oneof (c.field f).name u := by
  unfold entry at h
  split at h
  · rename_i variant w
    obtain ⟨f', hf', hpair⟩ := Option.map_eq_some_iff.mp h
    obtain ⟨rfl, rfl⟩ := Prod.mk.inj hpair
    obtain ⟨o, ho, hvariant⟩ := Option.bind_eq_some_iff.mp hf'
    have hname : (c.oneof o).name = name := by simpa using List.find?_some ho
    have hname' : (c.field f').name = variant := by simpa using List.find?_some hvariant
    exact .inr ⟨o, List.mem_of_find?_eq_some ho, List.mem_of_find?_eq_some hvariant, hname,
      by rw [hname']⟩
  · obtain ⟨f', hf', hpair⟩ := Option.map_eq_some_iff.mp h
    obtain ⟨rfl, rfl⟩ := Prod.mk.inj hpair
    obtain ⟨hfind, hplain⟩ := Option.filter_eq_some_iff.mp hf'
    exact .inl ⟨List.mem_of_find?_eq_some hfind, by simpa using hplain,
      by simpa using List.find?_some hfind, rfl⟩

/-- A record of a message: sorted entries that set fields of the message to values that fit. -/
structure Typed (c : Chain) (m : MessageId) (r : Record) : Prop where
  message : r.message = (c.message m).fullName
  sorted : r.fields.Pairwise (·.1 < ·.1)
  entries : ∀ e ∈ r.fields, (c.entry m e.1 e.2).any fun x => c.fits (c.field x.1) x.2

instance (c : Chain) (m : MessageId) (r : Record) : Decidable (c.Typed m r) :=
  decidable_of_iff (r.message = (c.message m).fullName ∧ r.fields.Pairwise (·.1 < ·.1) ∧
      ∀ e ∈ r.fields, (c.entry m e.1 e.2).any fun x => c.fits (c.field x.1) x.2)
    ⟨fun h => ⟨h.1, h.2.1, h.2.2⟩, fun h => ⟨h.message, h.sorted, h.entries⟩⟩

/-- A record of a message, as far as some test of single values goes: sorted entries that set fields
    of the message to values that pass. -/
structure TypedBy (c : Chain) (one : Field → Value → Bool) (m : MessageId) (r : Record) : Prop where
  message : r.message = (c.message m).fullName
  sorted : r.fields.Pairwise (·.1 < ·.1)
  entries : ∀ e ∈ r.fields, (c.entry m e.1 e.2).any fun x => fitsBy one (c.field x.1) x.2

instance (c : Chain) (one : Field → Value → Bool) (m : MessageId) (r : Record) :
    Decidable (c.TypedBy one m r) :=
  decidable_of_iff (r.message = (c.message m).fullName ∧ r.fields.Pairwise (·.1 < ·.1) ∧
      ∀ e ∈ r.fields, (c.entry m e.1 e.2).any fun x => fitsBy one (c.field x.1) x.2)
    ⟨fun h => ⟨h.1, h.2.1, h.2.2⟩, fun h => ⟨h.message, h.sorted, h.entries⟩⟩

namespace TypedBy

variable {one : Field → Value → Bool} {m : MessageId} {r : Record} (h : c.TypedBy one m r)
include h

/-- What a typed record holds is the entry of a field, which it fits. -/
theorem exists_entry {name : String} {v : Value} (hget : r.get? name = some v) :
    ∃ f u, c.entry m name v = some (f, u) ∧ fitsBy one (c.field f) u = true := by
  have hany := h.entries _ (Sorted.mem_of_get? hget)
  cases hentry : c.entry m name v with
  | none =>
    rw [hentry] at hany
    cases hany
  | some x =>
    rw [hentry] at hany
    exact ⟨x.1, x.2, rfl, hany⟩

/-- The value under the name of a plain field fits the field. -/
theorem get?_field (hmembers : c.UniqueMembers) {f : FieldId} (hf : f ∈ (c.message m).fields)
    {v : Value} (hget : r.get? (c.field f).name = some v) :
    c.entry m (c.field f).name v = some (f, v) ∧ fitsBy one (c.field f) v = true := by
  obtain ⟨g, u, hentry, hfits⟩ := h.exists_entry hget
  obtain ⟨hg, -, hname, rfl⟩ | ⟨o, ho, -, hname, -⟩ := entry_eq_some hentry
  · obtain rfl := hmembers.uniqueFields.eq hg hf hname
    exact ⟨hentry, hfits⟩
  · exact absurd hname.symm (hmembers.field_ne_oneof hf ho)

/-- Under the name of a oneof there is one of its variants, set to a value that fits. -/
theorem get?_oneof (hmembers : c.UniqueMembers) {o : OneofId} (ho : o ∈ (c.message m).oneofs)
    {v : Value} (hget : r.get? (c.oneof o).name = some v) :
    ∃ f ∈ (c.oneof o).fields, ∃ u, v = .oneof (c.field f).name u ∧
      c.entry m (c.oneof o).name v = some (f, u) ∧ fitsBy one (c.field f) u = true := by
  obtain ⟨f, u, hentry, hfits⟩ := h.exists_entry hget
  obtain ⟨hf, -, hname, -⟩ | ⟨q, hq, hf, hname, rfl⟩ := entry_eq_some hentry
  · exact absurd hname (hmembers.field_ne_oneof hf ho)
  · obtain rfl := hmembers.oneof_eq hq ho hname
    exact ⟨f, hf, u, rfl, hentry, hfits⟩

end TypedBy

/-- A record is typed if all its entries fit. -/
theorem typed_iff {m : MessageId} {r : Record} : c.Typed m r ↔ c.TypedBy c.fitsOne m r := by
  constructor
  · exact fun h => ⟨h.message, h.sorted, by simpa only [fits_eq_fitsBy] using h.entries⟩
  · exact fun h => ⟨h.message, h.sorted, by simpa only [fits_eq_fitsBy] using h.entries⟩

namespace Typed

variable {m : MessageId} {r : Record} (h : c.Typed m r)
include h

/-- What a typed record holds is the entry of a field, which it fits. -/
theorem exists_entry {name : String} {v : Value} (hget : r.get? name = some v) :
    ∃ f u, c.entry m name v = some (f, u) ∧ c.fits (c.field f) u = true := by
  simpa only [fits_eq_fitsBy] using (typed_iff.mp h).exists_entry hget

/-- The value under the name of a plain field fits the field. -/
theorem get?_field (hmembers : c.UniqueMembers) {f : FieldId} (hf : f ∈ (c.message m).fields)
    {v : Value} (hget : r.get? (c.field f).name = some v) :
    c.entry m (c.field f).name v = some (f, v) ∧ c.fits (c.field f) v = true := by
  simpa only [fits_eq_fitsBy] using (typed_iff.mp h).get?_field hmembers hf hget

/-- Under the name of a oneof there is one of its variants, set to a value that fits. -/
theorem get?_oneof (hmembers : c.UniqueMembers) {o : OneofId} (ho : o ∈ (c.message m).oneofs)
    {v : Value} (hget : r.get? (c.oneof o).name = some v) :
    ∃ f ∈ (c.oneof o).fields, ∃ u, v = .oneof (c.field f).name u ∧
      c.entry m (c.oneof o).name v = some (f, u) ∧ c.fits (c.field f) u = true := by
  simpa only [fits_eq_fitsBy] using (typed_iff.mp h).get?_oneof hmembers ho hget

end Typed

/-! ### Records in records -/

/-- The records in an entry. -/
def recordsAt (c : Chain) (m : MessageId) (name : String) (v : Value) : List (MessageId × Record) :=
  ((c.entry m name v).map fun x => recordsOf (c.field x.1) x.2).getD []

/-- The records at a name are those in the value of the field there. -/
theorem recordsAt_eq {m : MessageId} {name : String} {v u : Value} {f : FieldId}
    (h : c.entry m name v = some (f, u)) : c.recordsAt m name v = recordsOf (c.field f) u := by
  rw [recordsAt, h]
  rfl

/-- The records in the entries of a record. -/
def children (c : Chain) (m : MessageId) (r : Record) : List (MessageId × Record) :=
  r.fields.flatMap fun e => c.recordsAt m e.1 e.2

/-- The records at a name are children of the record. -/
theorem mem_children {m : MessageId} {r : Record} {name : String} {v : Value}
    (hget : r.get? name = some v) {x : MessageId × Record} (hx : x ∈ c.recordsAt m name v) :
    x ∈ c.children m r :=
  List.mem_flatMap.mpr ⟨_, Sorted.mem_of_get? hget, hx⟩

/-- The records that a record of a message holds at any depth, itself included. -/
abbrev Holds (c : Chain) : MessageId × Record → MessageId × Record → Prop :=
  Relation.ReflTransGen fun x y => y ∈ c.children x.1 x.2

/-- All records that a record holds satisfy something. -/
def Everywhere (c : Chain) (P : MessageId → Record → Prop) (m : MessageId) (r : Record) : Prop :=
  ∀ x, c.Holds (m, r) x → P x.1 x.2

/-- It holds everywhere if it holds of the record, and everywhere in the records in its entries. -/
theorem everywhere_iff {P : MessageId → Record → Prop} {m : MessageId} {r : Record} :
    c.Everywhere P m r ↔ P m r ∧ ∀ x ∈ c.children m r, c.Everywhere P x.1 x.2 := by
  constructor
  · exact fun h => ⟨h _ .refl, fun x hx y hy => h y (.head hx hy)⟩
  · rintro ⟨hown, hchildren⟩ x hx
    obtain rfl | ⟨y, hy, hyx⟩ := hx.cases_head
    · exact hown
    · exact hchildren y hy x hyx

/-- It holds everywhere in a record that nests once if it holds of the record and of those in its
    entries. -/
theorem everywhere_of_children {P : MessageId → Record → Prop} {m : MessageId} {r : Record}
    (hown : P m r)
    (hchildren : ∀ x ∈ c.children m r, P x.1 x.2 ∧ (c.children x.1 x.2).isEmpty = true) :
    c.Everywhere P m r := by
  refine everywhere_iff.mpr ⟨hown, fun x hx => everywhere_iff.mpr ⟨(hchildren x hx).1, ?_⟩⟩
  rw [List.isEmpty_iff.mp (hchildren x hx).2]
  simp

/-- A record of a message, as are all records that it holds. -/
abbrev WellTyped (c : Chain) : MessageId → Record → Prop := c.Everywhere c.Typed

/-- A record of a message, as are all records that it holds, with values of enums under any name. -/
abbrev LooselyTyped (c : Chain) : MessageId → Record → Prop :=
  c.Everywhere (c.TypedBy c.fitsOneLoosely)

/-! ### What must be received -/

/-- What a conversion up demands is set: the plain fields that must be received are not empty, and
    the oneofs that must be received are set. -/
structure Received (c : Chain) (m : MessageId) (r : Record) : Prop where
  fields : ∀ f ∈ (c.message m).fields, (c.field f).oneof = none → (c.field f).receiveRequired →
    r.isSet (c.field f).name
  oneofs : ∀ o ∈ (c.message m).oneofs, (c.oneof o).receiveRequired →
    (r.get? (c.oneof o).name).isSome

instance (c : Chain) (m : MessageId) (r : Record) : Decidable (c.Received m r) :=
  decidable_of_iff ((∀ f ∈ (c.message m).fields, (c.field f).oneof = none →
      (c.field f).receiveRequired → r.isSet (c.field f).name) ∧
    ∀ o ∈ (c.message m).oneofs, (c.oneof o).receiveRequired → (r.get? (c.oneof o).name).isSome)
    ⟨fun h => ⟨h.1, h.2⟩, fun h => ⟨h.fields, h.oneofs⟩⟩

/-- The variants that must be received are set and not empty. -/
def VariantsReceived (c : Chain) (m : MessageId) (r : Record) : Prop :=
  ∀ o ∈ (c.message m).oneofs, ∀ f ∈ (c.oneof o).fields, (c.field f).receiveRequired →
    (r.get? (c.oneof o).name).any fun v => match v with
      | .oneof variant u => variant == (c.field f).name && !u.isEmpty
      | _ => false

instance (c : Chain) (m : MessageId) (r : Record) : Decidable (c.VariantsReceived m r) :=
  inferInstanceAs (Decidable (∀ o ∈ _, ∀ f ∈ _, _ → _))

end Chain

end Lineage
