import Lineage.Proofs.Plan.Provided

namespace Lineage

/-!
# Members with counterparts

A converter reads the members of its message from their counterparts, or writes them there.

* `Chain.Linked.upLink_isSome` — the counterparts that a member has if what it belongs to has them,
* `View.upLink_field_isSome`, `View.upLink_oneof_isSome`, `View.upLink_variant_isSome` — those of a
  field, a oneof and a variant where the converter of the message reads them from,
* `View.Equipped`, `View.equipped` — if the message has the counterpart that a converter works
  against, its members have all those that the converter needs.
-/

/-- A member of something that has counterparts has the one it needs: the private one, or the next
    one if its owner has it too and the member does not bypass the next version. -/
theorem Chain.Linked.upLink_isSome {c : Chain} {count : Nat} (h : c.Linked count) {n o t : Node}
    (hn : c.Has n) (ho : o ∈ c.owners n) (hlead : (c.links o).Leads t) {fromPrivate : Bool}
    (hnext : fromPrivate = false → (c.links o).next.isSome ∧ c.bypasses n = false) :
    (View.upLink fromPrivate (c.links n)).isSome := by
  cases fromPrivate with
  | true =>
    have hversion : c.versionOf o = c.versionOf n := (h.framed.wellFormed.has_owner hn ho).2
    obtain ⟨p, hp, -⟩ := (h.coherent hn (hversion ▸ h.public_of_leads hlead)).final
    exact Option.isSome_iff_exists.mpr ⟨p, hp⟩
  | false =>
    obtain ⟨howner, hbypass⟩ := hnext rfl
    exact (h.next_isSome_of_owner hn ho howner).mpr hbypass

namespace View

variable {w : View} {count : Nat} {kind : ConverterKind} {id : MessageId}

/-- On the way down a counterpart is looked up where a way up that leads there would look. -/
theorem downLink_eq_upLink {Id : Type} (kind : ConverterKind) (l : Link Id) :
    downLink kind l = upLink (kind != .toNext) l := by
  cases kind <;> rfl

/-- A converter that leads up and does not read the private record alone faces the next version. -/
theorem facesNext_of_shape (hup : kind.isDown = false)
    (hshape : (w.shape kind == .upFromPrivate) = false) : w.facesNext kind := by
  by_contra hfaces
  simp [shape, hup, hfaces] at hshape

/-! ### Members of one message -/

section
variable (h : w.chain.Linked count) {t : MessageId}
  (ht : w.side kind (w.chain.message id).link = some t)
include ht

/-- What a converter works against is the next counterpart if it faces the next version. -/
theorem next_isSome_of_facesNext (hfaces : w.facesNext kind) :
    (w.chain.links (.message id)).next.isSome := by
  rw [side, if_pos hfaces] at ht
  simp [Chain.links, ht]

include h

/-- A field on the way up has the counterpart that is read. -/
theorem upLink_field_isSome {f : FieldId} (hf : f ∈ (w.chain.message id).fields)
    {fromPrivate : Bool}
    (hside : fromPrivate = false → w.facesNext kind ∧ w.chain.bypasses (.field f) = false) :
    (upLink fromPrivate (w.chain.field f).link).isSome := by
  obtain ⟨hlt, hmessage⟩ := (h.framed.wellFormed.mem_fields id f).mp hf
  have hlead := Chain.leads_links_message (leads_of_side ht)
  have hsome := h.upLink_isSome (n := .field f) hlt (by simp [Chain.owners, hmessage]) hlead
    fun hfrom => ⟨next_isSome_of_facesNext ht (hside hfrom).1, (hside hfrom).2⟩
  cases fromPrivate <;> simpa [upLink, Chain.links] using hsome

/-- A oneof on the way up has the counterpart that is read. -/
theorem upLink_oneof_isSome {o : OneofId} (ho : o ∈ (w.chain.message id).oneofs)
    {fromPrivate : Bool}
    (hside : fromPrivate = false → w.facesNext kind ∧ (w.chain.oneof o).deprecated = false) :
    (upLink fromPrivate (w.chain.oneof o).link).isSome := by
  obtain ⟨hlt, hmessage⟩ := (h.framed.wellFormed.mem_oneofs id o).mp ho
  have hlead := Chain.leads_links_message (leads_of_side ht)
  have hsome := h.upLink_isSome (n := .oneof o) hlt (by simp [Chain.owners, hmessage]) hlead
    fun hfrom => ⟨next_isSome_of_facesNext ht (hside hfrom).1,
      by simp [Chain.bypasses, Chain.isDeprecated, hside hfrom]⟩
  cases fromPrivate <;> simpa [upLink, Chain.links] using hsome

/-- A variant bypasses the next version if it is deprecated or its oneof is. -/
theorem upLink_variant_isSome {o : OneofId} (ho : o ∈ (w.chain.message id).oneofs) {v : FieldId}
    (hv : v ∈ (w.chain.oneof o).fields) {fromPrivate : Bool}
    (hside : fromPrivate = false → w.facesNext kind ∧ (w.chain.oneof o).deprecated = false ∧
      (w.chain.field v).deprecated = false) :
    (upLink fromPrivate (w.chain.field v).link).isSome := by
  have hwf := h.framed.wellFormed
  refine upLink_field_isSome h ht (hwf.mem_fields_of_variant ho hv) fun hfrom => ?_
  obtain ⟨hfaces, hlive, hlive'⟩ := hside hfrom
  refine ⟨hfaces, ?_⟩
  simp [Chain.bypasses, Chain.isDeprecated, ((hwf.mem_variants o v).mp hv).2, hlive, hlive']

end

/-! ### All members -/

/-- The members of a message have the counterparts that the converter of a kind for the message
    needs. -/
structure Equipped (w : View) (kind : ConverterKind) (id : MessageId) : Prop where
  downField : kind.isDown → ∀ f ∈ w.chain.plainFields id, ¬(kind = .toNext ∧ f.deprecated) →
    (downLink kind f.link).isSome
  upField : kind.isDown = false → ∀ f ∈ w.chain.plainFields id,
    (upLink (w.readsPrivate (w.shape kind) f) f.link).isSome
  downOneof : kind.isDown → ∀ o ∈ (w.chain.message id).oneofs.map w.chain.oneof,
    ¬(kind = .toNext ∧ o.deprecated) → (downLink kind o.link).isSome ∧
      ∀ v ∈ o.fields.map w.chain.field, ¬(kind = .toNext ∧ v.deprecated) →
        (downLink kind v.link).isSome
  upOneof : kind.isDown = false → ∀ o ∈ (w.chain.message id).oneofs.map w.chain.oneof,
    (upLink (w.shape kind == .upFromPrivate || o.deprecated) o.link).isSome ∧
      ∀ v ∈ o.fields.map w.chain.field,
        ¬((w.shape kind == .upFromPrivate || o.deprecated) = false ∧ v.deprecated) →
          (upLink (w.shape kind == .upFromPrivate || o.deprecated) v.link).isSome

/-- **Members are equipped** if the message has the counterpart that its converter works against. -/
theorem equipped (h : w.chain.Linked count)
    (hside : (w.side kind (w.chain.message id).link).isSome) : w.Equipped kind id := by
  obtain ⟨t, ht⟩ := Option.isSome_iff_exists.mp hside
  constructor
  case downField =>
    intro _ f hf hlive
    obtain ⟨i, hi, hplain, rfl⟩ := Chain.mem_plainFields.mp hf
    rw [downLink_eq_upLink]
    refine upLink_field_isSome h ht hi fun hfrom => ?_
    obtain rfl : kind = .toNext := by simpa using hfrom
    exact ⟨rfl, by simpa [Chain.bypasses, Chain.isDeprecated, hplain] using hlive⟩
  case upField =>
    intro hup f hf
    obtain ⟨i, hi, hplain, rfl⟩ := Chain.mem_plainFields.mp hf
    refine upLink_field_isSome h ht hi fun hfrom => ?_
    obtain ⟨hfrom, -⟩ := Bool.or_eq_false_iff.mp hfrom
    obtain ⟨hshape, hlive⟩ := Bool.or_eq_false_iff.mp hfrom
    exact ⟨facesNext_of_shape hup hshape,
      by simp [Chain.bypasses, Chain.isDeprecated, hplain, hlive]⟩
  case downOneof =>
    intro _ _ hmem hlive
    obtain ⟨o, ho, rfl⟩ := List.mem_map.mp hmem
    have hfaces : (kind != .toNext) = false →
        w.facesNext kind ∧ (w.chain.oneof o).deprecated = false := by
      intro hfrom
      obtain rfl : kind = .toNext := by simpa using hfrom
      exact ⟨rfl, by simpa using hlive⟩
    rw [downLink_eq_upLink]
    refine ⟨upLink_oneof_isSome h ht ho hfaces, fun _ hmem hlive' => ?_⟩
    obtain ⟨v, hv, rfl⟩ := List.mem_map.mp hmem
    rw [downLink_eq_upLink]
    refine upLink_variant_isSome h ht ho hv fun hfrom => ?_
    obtain ⟨hnext, hkept⟩ := hfaces hfrom
    obtain rfl : kind = .toNext := by simpa using hfrom
    exact ⟨hnext, hkept, by simpa using hlive'⟩
  case upOneof =>
    intro hup _ hmem
    obtain ⟨o, ho, rfl⟩ := List.mem_map.mp hmem
    have hfaces : (w.shape kind == .upFromPrivate || (w.chain.oneof o).deprecated) = false →
        w.facesNext kind ∧ (w.chain.oneof o).deprecated = false := by
      intro hfrom
      obtain ⟨hshape, hlive⟩ := Bool.or_eq_false_iff.mp hfrom
      exact ⟨facesNext_of_shape hup hshape, hlive⟩
    refine ⟨upLink_oneof_isSome h ht ho hfaces, fun _ hmem hlive' => ?_⟩
    obtain ⟨v, hv, rfl⟩ := List.mem_map.mp hmem
    refine upLink_variant_isSome h ht ho hv fun hfrom => ?_
    obtain ⟨hnext, hkept⟩ := hfaces hfrom
    exact ⟨hnext, hkept, by simpa [hfrom] using hlive'⟩

end View

end Lineage
