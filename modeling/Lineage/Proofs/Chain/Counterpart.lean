import Lineage.Proofs.Chain.Coherent
import Lineage.Chain.Propagation
import Mathlib.Logic.Relation

namespace Lineage.Chain

/-!
# Counterparts of members

* `Linked.field_next`, `Linked.field_final`, `Linked.oneof_next`, `Linked.oneof_final` — the
  counterparts of the members of a message are members of the counterparts of the message,
* `LeadsTo` — the fields that a field leads to, link by link,
* `Copied` — a field whose value is copied on every way to the private version,
* `StandsFor` — a field whose value ends in a private field,
* `referred`, `Reaches` — the messages that the fields of a message refer to, and those that can be
  reached.
-/

variable {c : Chain} {count : Nat}

/-- What the chain does not have has no counterparts. -/
theorem has_of_leads {n t : Node} (ht : (c.links n).Leads t) : c.Has n := by
  by_contra hn
  have hnone : c.links n = {} := by
    cases n with
    | message m => rw [links, message, getD_of_not_lt hn]; rfl
    | enumeration e => rw [links, enumeration, getD_of_not_lt hn]; rfl
    | value v => rw [links, value, getD_of_not_lt hn]; rfl
    | oneof o => rw [links, oneof, getD_of_not_lt hn]; rfl
    | field f => rw [links, field, getD_of_not_lt hn]; rfl
    | method r => rw [links, method, getD_of_not_lt hn]; rfl
  rw [hnone] at ht
  obtain ht | ht := ht <;> cases ht

/-- Where a message leads, its node leads. -/
theorem leads_links_message {m t : MessageId} (h : (c.message m).link.Leads t) :
    (c.links (.message m)).Leads (.message t) :=
  Link.leads_map Node.message h

/-- Where an enum leads, its node leads. -/
theorem leads_links_enumeration {e t : EnumId} (h : (c.enumeration e).link.Leads t) :
    (c.links (.enumeration e)).Leads (.enumeration t) :=
  Link.leads_map Node.enumeration h

/-- A next counterpart lies in the next counterpart of the owner. -/
theorem Coherent.mem_owners_next {n o t p : Node} (hc : c.Coherent n) (ho : o ∈ c.owners n)
    (ht : (c.links n).next = some t) (hp : (c.links o).next = some p) : p ∈ c.owners t := by
  obtain ⟨x, hx, howner⟩ := hc.insideNext o ho t ht
  exact Option.some.inj (hx.symm.trans hp) ▸ howner

/-- A private counterpart lies in the private counterpart of the owner. -/
theorem Coherent.mem_owners_final {n o t p : Node} (hc : c.Coherent n) (ho : o ∈ c.owners n)
    (ht : (c.links n).final = some t) (hp : (c.links o).final = some p) : p ∈ c.owners t := by
  obtain ⟨x, hx, howner⟩ := hc.insideFinal o ho t ht
  exact Option.some.inj (hx.symm.trans hp) ▸ howner

namespace Linked

variable (h : c.Linked count) {m m' : MessageId}
include h

/-- What has counterparts is public. -/
theorem public_of_leads {n t : Node} (ht : (c.links n).Leads t) :
    (c.versionOf n).index + 1 < count := by
  have hn := has_of_leads ht
  -- nodes of the private version have no links
  have hlt := h.framed.versionOf_lt hn
  by_contra hlast
  rw [h.unlinked n hn (by omega)] at ht
  obtain ht | ht := ht <;> cases ht

/-- The private counterpart of a message is a message of the chain. -/
theorem message_final_lt (hm : m.index < c.messages.size)
    (hpublic : (c.message m).version.index + 1 < count)
    (hfinal : (c.message m).link.final = some m') :
    m'.index < c.messages.size ∧ (c.message m').version.index + 1 = count := by
  obtain ⟨q, hq, -, hhas, hversion⟩ :=
    (h.coherent (n := .message m) hm hpublic).final_version h.framed
  obtain rfl : .message m' = q := by simpa [links, hfinal] using hq
  have hindex : (c.message m').version.index = count - 1 := congrArg VersionId.index hversion
  exact ⟨hhas, by omega⟩

/-- The fields of a public message are coherent. -/
theorem field_coherent {f : FieldId} (hf : f ∈ (c.message m).fields)
    (hpublic : (c.message m).version.index + 1 < count) : c.Coherent (.field f) := by
  obtain ⟨hlt, hmessage⟩ := (h.framed.wellFormed.mem_fields m f).mp hf
  exact h.coherent (n := .field f) hlt (by rw [versionOf, hmessage]; exact hpublic)

/-- The oneofs of a public message are coherent. -/
theorem oneof_coherent {o : OneofId} (ho : o ∈ (c.message m).oneofs)
    (hpublic : (c.message m).version.index + 1 < count) : c.Coherent (.oneof o) := by
  obtain ⟨hlt, hmessage⟩ := (h.framed.wellFormed.mem_oneofs m o).mp ho
  exact h.coherent (n := .oneof o) hlt (by rw [versionOf, hmessage]; exact hpublic)

/-- The next counterpart of a field is one of the next counterpart of the message, and both share
    the private counterpart. -/
theorem field_next {f g : FieldId} (hf : f ∈ (c.message m).fields)
    (hpublic : (c.message m).version.index + 1 < count) (hm : (c.message m).link.next = some m')
    (hg : (c.field f).link.next = some g) :
    g ∈ (c.message m').fields ∧ (c.field g).link.final = (c.field f).link.final := by
  have hwf := h.framed.wellFormed
  obtain ⟨hlt, hmessage⟩ := (hwf.mem_fields m f).mp hf
  have hc := h.field_coherent hf hpublic
  have hlink : (c.links (.field f)).next = some (.field g) := by simp [links, hg]
  obtain ⟨-, hmem, hfinal⟩ := hc.next _ hlink
  -- the owner of the counterpart is the counterpart of the owner
  have howner :=
    hc.mem_owners_next (o := .message m) (p := .message m') (by simp [owners, hmessage]) hlink
    (by simp [links, hm])
  have hinside : (c.field g).message = m' := by simpa [owners, eq_comm] using howner
  have hinj : Function.Injective Node.field := fun _ _ heq => Node.field.inj heq
  exact ⟨(hwf.mem_fields m' g).mpr ⟨((hwf.mem_nodesOf _ _).mp hmem).1, hinside⟩,
    Option.map_injective hinj hfinal⟩

/-- What belongs to something with a next counterpart has one too, unless it bypasses the next
    version. -/
theorem next_isSome_of_owner {n o : Node} (hn : c.Has n) (ho : o ∈ c.owners n)
    (howner : (c.links o).next.isSome) : (c.links n).next.isSome ↔ c.bypasses n = false := by
  obtain ⟨hhas, hversion⟩ := h.framed.wellFormed.has_owner hn ho
  obtain ⟨t, ht⟩ := Option.isSome_iff_exists.mp howner
  have hpublic := h.public_of_leads (.inl ht)
  have hnotLatest := ((h.coherent hhas hpublic).next_isSome.mp howner).1
  rw [hversion] at hpublic hnotLatest
  simp [(h.coherent hn hpublic).next_isSome, hnotLatest]

/-- A field of a message with a next counterpart has one too, unless it bypasses the
    next version. -/
theorem field_next_isSome {f : FieldId} (hf : f ∈ (c.message m).fields)
    (hm : (c.message m).link.next = some m') :
    (c.field f).link.next.isSome ↔ c.bypasses (.field f) = false := by
  obtain ⟨hlt, hmessage⟩ := (h.framed.wellFormed.mem_fields m f).mp hf
  have hnext := h.next_isSome_of_owner (n := .field f) (o := .message m) hlt
    (by simp [owners, hmessage]) (by simp [links, hm])
  simpa [links] using hnext

/-- The private counterpart of a field is one of the private counterpart of the message. -/
theorem field_final {f : FieldId} (hf : f ∈ (c.message m).fields)
    (hpublic : (c.message m).version.index + 1 < count) (hm : (c.message m).link.final = some m') :
    ∃ p, (c.field f).link.final = some p ∧ p ∈ (c.message m').fields := by
  have hwf := h.framed.wellFormed
  obtain ⟨hlt, hmessage⟩ := (hwf.mem_fields m f).mp hf
  have hc := h.field_coherent hf hpublic
  obtain ⟨q, hq, hkind, hmem, -⟩ := hc.final
  obtain ⟨p, hp, rfl⟩ : ∃ p, (c.field f).link.final = some p ∧ Node.field p = q := by
    simpa [links] using hq
  have howner :=
    hc.mem_owners_final (o := .message m) (p := .message m') (by simp [owners, hmessage]) hq
    (by simp [links, hm])
  have hinside : (c.field p).message = m' := by simpa [owners, eq_comm] using howner
  exact ⟨p, hp, (hwf.mem_fields m' p).mpr ⟨((hwf.mem_nodesOf _ _).mp hmem).1, hinside⟩⟩

/-- The next counterpart of a oneof is one of the next counterpart of the message. -/
theorem oneof_next {o o' : OneofId} (ho : o ∈ (c.message m).oneofs)
    (hpublic : (c.message m).version.index + 1 < count) (hm : (c.message m).link.next = some m')
    (ho' : (c.oneof o).link.next = some o') : o' ∈ (c.message m').oneofs := by
  have hwf := h.framed.wellFormed
  obtain ⟨hlt, hmessage⟩ := (hwf.mem_oneofs m o).mp ho
  have hc := h.oneof_coherent ho hpublic
  have hlink : (c.links (.oneof o)).next = some (.oneof o') := by simp [links, ho']
  obtain ⟨-, hmem, -⟩ := hc.next _ hlink
  have howner :=
    hc.mem_owners_next (o := .message m) (p := .message m') (by simp [owners, hmessage]) hlink
    (by simp [links, hm])
  have hinside : (c.oneof o').message = m' := by simpa [owners, eq_comm] using howner
  exact (hwf.mem_oneofs m' o').mpr ⟨((hwf.mem_nodesOf _ _).mp hmem).1, hinside⟩

/-- The private counterpart of a oneof is one of the private counterpart of the message. -/
theorem oneof_final {o : OneofId} (ho : o ∈ (c.message m).oneofs)
    (hpublic : (c.message m).version.index + 1 < count) (hm : (c.message m).link.final = some m') :
    ∃ p, (c.oneof o).link.final = some p ∧ p ∈ (c.message m').oneofs := by
  have hwf := h.framed.wellFormed
  obtain ⟨hlt, hmessage⟩ := (hwf.mem_oneofs m o).mp ho
  have hc := h.oneof_coherent ho hpublic
  obtain ⟨q, hq, hkind, hmem, -⟩ := hc.final
  obtain ⟨p, hp, rfl⟩ : ∃ p, (c.oneof o).link.final = some p ∧ Node.oneof p = q := by
    simpa [links] using hq
  have howner :=
    hc.mem_owners_final (o := .message m) (p := .message m') (by simp [owners, hmessage]) hq
    (by simp [links, hm])
  have hinside : (c.oneof p).message = m' := by simpa [owners, eq_comm] using howner
  exact ⟨p, hp, (hwf.mem_oneofs m' p).mpr ⟨((hwf.mem_nodesOf _ _).mp hmem).1, hinside⟩⟩

/-- A field of the private version has no counterparts. -/
theorem field_unlinked {f : FieldId} (hf : f ∈ (c.message m).fields)
    (hprivate : (c.message m).version.index + 1 = count) : (c.field f).link.final = none := by
  obtain ⟨hlt, hmessage⟩ := (h.framed.wellFormed.mem_fields m f).mp hf
  have hlinks := h.unlinked (.field f) hlt (by rw [versionOf, hmessage]; exact hprivate)
  have hfinal := congrArg Link.final hlinks
  simpa [links] using hfinal

end Linked

/-! ### What a field leads to -/

/-- One of the two links of a field. -/
def Leads (c : Chain) (f g : FieldId) : Prop :=
  (c.field f).link.next = some g ∨ (c.field f).link.final = some g

/-- The fields that a field leads to, itself included. -/
abbrev LeadsTo (c : Chain) : FieldId → FieldId → Prop := Relation.ReflTransGen c.Leads

/-- What a field leads to lies in every list of fields that lead to no others. -/
theorem LeadsTo.mem_of_closed {f g : FieldId} (h : c.LeadsTo f g) {S : List FieldId} (hf : f ∈ S)
    (hclosed : ∀ g ∈ S, ∀ x ∈ (c.field g).link.next.toList ++ (c.field g).link.final.toList,
      x ∈ S) :
    g ∈ S := by
  induction h with
  | refl => exact hf
  | tail _ hlead ih =>
    refine hclosed _ ih _ (List.mem_append.mpr ?_)
    exact hlead.imp (fun hnext => by simp [hnext]) (fun hfinal => by simp [hfinal])

/-- A plain field whose value is copied on every way to the private version: all that it leads to
    are plain fields of its scalar kind that are repeated if it is. -/
def Copied (c : Chain) (f : FieldId) : Prop :=
  ∃ k, ∀ g, c.LeadsTo f g →
    (c.field g).oneof = none ∧ (c.field g).kind = .scalar k ∧
      (c.field g).repeated = (c.field f).repeated

namespace Copied

variable {f g : FieldId}

/-- A field that is copied is no variant. -/
theorem plain (h : c.Copied f) : (c.field f).oneof = none := by
  obtain ⟨k, hk⟩ := h
  exact (hk f .refl).1

/-- What a copied field leads to is copied on. -/
theorem leads (h : c.Copied f) (hg : c.Leads f g) : c.Copied g := by
  obtain ⟨k, hk⟩ := h
  have hown := hk g (.single hg)
  refine ⟨k, fun x hx => ?_⟩
  obtain ⟨hplain, hkind, hrepeated⟩ := hk x (.head hg hx)
  exact ⟨hplain, hkind, hrepeated.trans hown.2.2.symm⟩

/-- The value is copied across each link. -/
theorem classifyPair (h : c.Copied f) (hg : c.Leads f g) :
    classifyPair (c.field f) (c.field g) = .copy := by
  obtain ⟨k, hk⟩ := h
  obtain ⟨-, hkind, -⟩ := hk f .refl
  obtain ⟨-, hkind', hrepeated⟩ := hk g (.single hg)
  simp [Lineage.classifyPair, hkind, hkind', hrepeated]

/-- A field is copied if it is among some plain fields of one scalar kind that lead to no others. -/
theorem of_closed {k : ScalarKind} (S : List FieldId) (hf : f ∈ S)
    (hclosed : ∀ g ∈ S, ∀ x ∈ (c.field g).link.next.toList ++ (c.field g).link.final.toList, x ∈ S)
    (hall : ∀ g ∈ S, (c.field g).oneof = none ∧ (c.field g).kind = .scalar k ∧
      (c.field g).repeated = (c.field f).repeated) : c.Copied f :=
  ⟨k, fun g hg => hall g (hg.mem_of_closed hf hclosed)⟩

end Copied

/-- The value of a field ends in a private field: it is that field, or leads to it. -/
def StandsFor (c : Chain) (g p : FieldId) : Prop := g = p ∨ (c.field g).link.final = some p

/-- A public field stands for its private counterpart alone. -/
theorem StandsFor.final_eq (h : c.Linked count) {m q : MessageId} {g p : FieldId}
    (hs : c.StandsFor g p) (hg : g ∈ (c.message m).fields)
    (hpublic : (c.message m).version.index + 1 < count)
    (hp : p ∈ (c.message q).fields) (hprivate : (c.message q).version.index + 1 = count) :
    (c.field g).link.final = some p := by
  obtain rfl | hfinal := hs
  · -- the private field itself is no field of a public message
    have hm := ((h.framed.wellFormed.mem_fields m g).mp hg).2
    have hq := ((h.framed.wellFormed.mem_fields q g).mp hp).2
    rw [← hm] at hpublic
    rw [← hq] at hprivate
    omega
  · exact hfinal

/-- A private field stands for itself alone. -/
theorem StandsFor.eq_of_private (h : c.Linked count) {m : MessageId} {g p : FieldId}
    (hs : c.StandsFor g p) (hg : g ∈ (c.message m).fields)
    (hprivate : (c.message m).version.index + 1 = count) : g = p := by
  obtain rfl | hfinal := hs
  · rfl
  · rw [h.field_unlinked hg hprivate] at hfinal
    cases hfinal

/-! ### What a message refers to -/

/-- The messages that the fields of a message refer to. -/
def referred (c : Chain) (m : MessageId) : List MessageId :=
  (c.message m).fields.filterMap fun f => match (c.field f).typeRef with
    | some (.message n) => some n
    | _ => none

/-- The enums that the fields of a message refer to. -/
def referredEnums (c : Chain) (m : MessageId) : List EnumId :=
  (c.message m).fields.filterMap fun f => match (c.field f).typeRef with
    | some (.enumeration e) => some e
    | _ => none

/-- A field refers to a message that its own message refers to. -/
theorem mem_referred {m n : MessageId} {f : FieldId} (hf : f ∈ (c.message m).fields)
    (htype : (c.field f).typeRef = some (.message n)) : n ∈ c.referred m :=
  List.mem_filterMap.mpr ⟨f, hf, by rw [htype]⟩

/-- A field refers to an enum that its own message refers to. -/
theorem mem_referredEnums {m : MessageId} {e : EnumId} {f : FieldId} (hf : f ∈ (c.message m).fields)
    (htype : (c.field f).typeRef = some (.enumeration e)) : e ∈ c.referredEnums m :=
  List.mem_filterMap.mpr ⟨f, hf, by rw [htype]⟩

/-- The messages that can be reached from a message through fields, itself included. -/
abbrev Reaches (c : Chain) : MessageId → MessageId → Prop :=
  Relation.ReflTransGen fun m n => n ∈ c.referred m

/-- What is reached lies in every list of messages that refer to no others. -/
theorem Reaches.mem_of_closed {m n : MessageId} (h : c.Reaches m n) {S : List MessageId}
    (hm : m ∈ S) (hclosed : ∀ k ∈ S, ∀ x ∈ c.referred k, x ∈ S) : n ∈ S := by
  induction h with
  | refl => exact hm
  | tail _ hstep ih => exact hclosed _ ih _ hstep

end Lineage.Chain
