import Lineage.Proofs.Plan.Correspondence
import Lineage.Proofs.Plan.Sample

namespace Lineage

/-!
# What becomes of the fields of a request

A method that goes to the next version converts its request down, and writes some of the fields that
this leaves out straight into the private request.

* `MessageConverter.Writes` — a converter writes a field under some name, `MethodPlan.Forwards` — a
  method writes a field straight into the private request,
* `View.writes_iff` — the converter of a message writes what does not bypass the next version,
* `View.forwards_iff` — what is written straight into the private request are the deprecated plain
  fields,
* `Plan.handles_of_generate` — so a field that can be converted is written or forwarded exactly if
  it is no variant that bypasses the next version and the converter that is found is the one of the
  request.
-/

/-- A converter that leads down writes a field under a name: with an assignment, or with an arm for
    its oneof. -/
inductive MessageConverter.Writes (c : Chain) (x : MessageConverter) (f : FieldId) : String → Prop
  | assigned (a : Assignment) (ha : a ∈ x.assignments) (field : a.field = f) : Writes c x f a.target
  | mapped (o : OneofId) (variant : (c.field f).oneof = some o) (mapping : OneofMapping)
      (hmapping : mapping ∈ x.oneofs) (oneof : mapping.oneof = o) (a : VariantArm)
      (ha : a ∈ mapping.arms)
      (source : a.source = (c.field f).name) : Writes c x f a.target

/-- A method writes a field that bypasses the next version into its private counterpart. -/
def MethodPlan.Forwards (c : Chain) (m : MethodPlan) (f : FieldId) : Prop :=
  c.bypasses (.field f) ∧ ∃ p, (c.field f).link.final = some p ∧
    ∃ i ∈ m.deprecatedInputs, i.field = (c.field f).name ∧ i.privateField = (c.field p).name

/-- The type of an enum field is known, as it is in a descriptor that protoc has checked. -/
def Chain.TypeKnown (c : Chain) (f : FieldId) : Prop :=
  (c.field f).kind = .enumeration → View.subjectOf (c.field f).typeRef ≠ none

/-! ### Actions -/

/-- Nested conversions are for enums, or for messages of the chain. -/
theorem kind_of_classifyPair {f g : Field} {k : ConvertKind} (h : classifyPair f g = .convert k) :
    f.kind = .enumeration ∨ ∃ m, f.typeRef = some (.message m) := by
  unfold classifyPair at h
  split at h
  · cases h
  · split at h
    · split at h <;> cases h
    · rename_i hkind _
      exact .inl hkind
    · split at h
      · rename_i m _ htype _
        exact .inr ⟨m, htype⟩
      · split at h <;> cases h
      · cases h
    · cases h

/-- The value of an enum field is converted, or there is no way across. -/
theorem classifyPair_enumeration {f g : Field} (h : f.kind = .enumeration) :
    classifyPair f g = .unconvertible ∨ classifyPair f g = .convert .enumeration := by
  unfold classifyPair
  rw [h]
  split
  · exact .inl rfl
  · cases hg : g.kind with
    | enumeration => exact .inr rfl
    | scalar k => exact .inl rfl
    | message => exact .inl rfl

namespace View

variable {w : View} {kind : ConverterKind} {id : MessageId} {x : MessageConverter} {count : Nat}
  {f g : FieldId}

/-- A value that can be converted has an action, if its type is known. -/
theorem action_ne_none {other checked : FieldId}
    (hconvertible : classifyPair (w.chain.field f) (w.chain.field other) ≠ .unconvertible)
    (htyped : w.chain.TypeKnown f) : (w.action kind f other checked).result ≠ .ok none := by
  intro hnone
  unfold action at hnone
  dsimp only at hnone
  split at hnone
  · cases hnone
  · cases hnone
  · rename_i hun
    exact hconvertible hun
  · rename_i k hconvert
    split at hnone
    · rename_i hsubject
      obtain henum | ⟨m, hm⟩ := kind_of_classifyPair hconvert
      · exact htyped henum hsubject
      · rw [hm] at hsubject
        cases hsubject
    · split at hnone <;> cases hnone

/-- A value that has an action is of a known type. -/
theorem typeKnown_of_action {other checked : FieldId} {a : Action}
    (hok : (w.action kind f other checked).result = .ok (some a)) : w.chain.TypeKnown f := by
  intro henum
  have hconveys : w.Conveys kind f other checked a (w.action kind f other checked).requests :=
    ⟨hok, List.Subset.refl _⟩
  obtain ⟨-, hcopy⟩ | ⟨k, s, t, -, hnested⟩ := hconveys.cases
  · obtain hclass | hclass := classifyPair_enumeration (g := w.chain.field other) henum <;>
      simp [hclass] at hcopy
  · simp [hnested.type]

/-! ### Converters of requests -/

/-- A variant that has a counterpart and an action has an arm. -/
theorem downArm_arm {h : Head} {v : Field} {part : ArmPart}
    (hok : (w.downArm h v).result = .ok part) {t : FieldId}
    (hlive : ¬(h.kind = .toNext ∧ v.deprecated)) (ht : downLink h.kind v.link = some t)
    (haction : (w.action h.kind v.id t t).result ≠ .ok none) :
    ∃ a, part.arm? = some a ∧ a.source = v.name ∧ a.target = (w.chain.field t).name := by
  have hskip : (h.kind == .toNext && v.deprecated) = false := by simpa using hlive
  have hlink : (if h.kind == .toNext then v.link.next else v.link.final) = some t := ht
  unfold downArm at hok
  simp only [hskip, hlink, Bool.false_eq_true, if_false] at hok
  obtain ⟨action, hresult, hok⟩ := Traced.bind_result.mp hok
  cases action with
  | none => exact absurd hresult haction
  | some action =>
    obtain rfl := Except.ok.inj hok
    exact ⟨_, rfl, rfl, rfl⟩

/-- A oneof that has a counterpart has a mapping, with the arms of its variants. -/
theorem downOneof_mapping {h : Head} {o : Oneof} {part : OneofPart}
    (hok : (w.downOneof h o).result = .ok part) (hlive : ¬(h.kind = .toNext ∧ o.deprecated))
    (hlink : downLink h.kind o.link ≠ none) :
    ∃ parts mapping, part.mapping = some mapping ∧ mapping.oneof = o.id ∧
      mapping.arms = parts.filterMap ArmPart.arm? ∧
      List.Forall₂ (fun v p => (w.downArm h v).result = .ok p)
        (o.fields.map w.chain.field) parts := by
  have hskip : (h.kind == .toNext && o.deprecated) = false := by simpa using hlive
  obtain ⟨t, ht⟩ := Option.ne_none_iff_exists'.mp hlink
  have hsource : (if h.kind == .toNext then o.link.next else o.link.final) = some t := ht
  unfold downOneof at hok
  simp only [hskip, hsource, Bool.false_eq_true, if_false] at hok
  obtain ⟨parts, hparts, hok⟩ := Traced.bind_result.mp hok
  obtain rfl := Except.ok.inj hok
  exact ⟨parts, _, rfl, rfl, rfl, (Traced.mapM_result hparts).1⟩

section
variable (h : w.chain.Linked count) (hok : (w.messageConverter .toNext id).result = .ok x)
  (hf : f ∈ (w.chain.message id).fields) (hg : (w.chain.field f).link.next = some g)
  (haction : (w.action .toNext f g g).result ≠ .ok none)
include h hok hf hg haction

/-- A plain field with a next counterpart and an action is written. -/
theorem writes_of_plain (hplain : (w.chain.field f).oneof = none) :
    x.Writes w.chain f (w.chain.field g).name := by
  have hwf := h.framed.wellFormed
  have hid : (w.chain.field f).id = f := hwf.field_id ((hwf.mem_fields id f).mp hf).1
  have hpublic := public_of_messageConverter h hok
  obtain ⟨fields, oneofs, hparts⟩ := messageConverter_parts hok
  obtain ⟨heach, -⟩ := hparts.downward rfl
  obtain ⟨part, hpart, hresult⟩ :=
    forall₂_exists_right heach (Chain.mem_plainFields.mpr ⟨f, hf, hplain, rfl⟩)
  obtain ⟨-, ⟨-, hdeprecated, -⟩ | ⟨t, ht, hnone, -⟩ | ⟨a, ha, -, hassigns⟩⟩ :=
    downField_cases hresult (List.Subset.refl _)
  · -- a deprecated field has no next counterpart
    have hbypass := (h.field_coherent hf hpublic).next_isSome.mp (by simp [Chain.links, hg])
    simp [Chain.bypasses, Chain.isDeprecated, hdeprecated] at hbypass
  · obtain rfl : g = t := Option.some.inj (hg.symm.trans ht)
    rw [hid] at hnone
    exact absurd hnone haction
  · obtain ⟨t, ht, htarget, -⟩ := hassigns.target
    obtain rfl : g = t := Option.some.inj (hg.symm.trans ht)
    have hfield : a.field = f := ((downField_yields hresult).of_some ha).1.trans hid
    have hmem : a ∈ x.assignments := by
      rw [hparts.assignments]
      exact List.mem_filterMap.mpr ⟨part, hpart, ha⟩
    rw [← htarget]
    exact .assigned a hmem hfield

/-- A variant with a next counterpart and an action is written. -/
theorem writes_of_variant {o : OneofId} (hvariant : (w.chain.field f).oneof = some o) :
    x.Writes w.chain f (w.chain.field g).name := by
  have hwf := h.framed.wellFormed
  have hlt := ((hwf.mem_fields id f).mp hf).1
  have hid : (w.chain.field f).id = f := hwf.field_id hlt
  have hpublic := public_of_messageConverter h hok
  have hcoherent := h.field_coherent hf hpublic
  have hnext : (w.chain.links (.field f)).next = some (.field g) := by simp [Chain.links, hg]
  have hbypass := (hcoherent.next_isSome.mp (by simp [hnext])).2
  simp only [Chain.bypasses, Chain.isDeprecated, hvariant, Option.any_some, Bool.or_eq_false_iff]
    at hbypass
  have ho : o ∈ (w.chain.message id).oneofs := by
    refine (hwf.mem_oneofs id o).mpr ⟨hwf.field_oneof_lt hlt hvariant, ?_⟩
    rw [hwf.oneof_message_eq hlt hvariant, ((hwf.mem_fields id f).mp hf).2]
  -- the oneof has a next counterpart because its variant has one
  have hlink : (w.chain.oneof o).link.next ≠ none := by
    obtain ⟨t, ht, -⟩ := hcoherent.insideNext (.oneof o) (by simp [Chain.owners, hvariant]) _ hnext
    intro hnone
    simp [Chain.links, hnone] at ht
  obtain ⟨fields, oneofs, hparts⟩ := messageConverter_parts hok
  obtain ⟨-, honeofs, -⟩ := hparts.downward rfl
  obtain ⟨part, hpart, hresult⟩ := forall₂_exists_right honeofs (List.mem_map_of_mem ho)
  obtain ⟨parts, mapping, hmapping, hown, harms, hall⟩ :=
    downOneof_mapping hresult (by simp [hbypass.2]) hlink
  obtain ⟨arm, harm, harmOk⟩ :=
    forall₂_exists_right hall (List.mem_map_of_mem ((hwf.mem_variants o f).mpr ⟨hlt, hvariant⟩))
  obtain ⟨a, ha, hsource, htarget⟩ :=
    downArm_arm harmOk (by simp [hbypass.1]) hg (by rw [hid]; exact haction)
  rw [← htarget]
  refine .mapped o hvariant mapping ?_ ?_ a ?_ hsource
  · rw [hparts.mappings]
    exact List.mem_filterMap.mpr ⟨part, hpart, hmapping⟩
  · rw [hown, hwf.oneof_id ((hwf.mem_oneofs id o).mp ho).1]
  · rw [harms]
    exact List.mem_filterMap.mpr ⟨arm, harm, ha⟩

end

/-- What a converter writes is converted across the hop, and written under the name of the next
    counterpart. -/
theorem conveys_of_writes (h : w.chain.Linked count) (hfields : w.chain.UniqueFields)
    (hok : (w.messageConverter .toNext id).result = .ok x) (hf : f ∈ (w.chain.message id).fields)
    {name : String} (hwrites : x.Writes w.chain f name) :
    ∃ t a, (w.chain.field f).link.next = some t ∧ name = (w.chain.field t).name ∧
      (w.action .toNext f t t).result = .ok (some a) := by
  have hwf := h.framed.wellFormed
  have hid : (w.chain.field f).id = f := hwf.field_id ((hwf.mem_fields id f).mp hf).1
  -- written by an assignment, or by the arm of a mapping
  cases hwrites with
  | assigned a ha field =>
    obtain ⟨_, hmem, hfield, hdown | ⟨hup, -⟩⟩ := assignment_cases hok ha
    case inr => cases hup
    obtain ⟨-, hassigns⟩ := hdown
    obtain ⟨i, hi, -, rfl⟩ := Chain.mem_plainFields.mp hmem
    obtain rfl : i = f := by rw [← hwf.field_id ((hwf.mem_fields id i).mp hi).1, ← hfield, field]
    obtain ⟨t, ht, htarget, hconveys⟩ := hassigns.target
    exact ⟨t, a.action, ht, htarget, by rw [← hid]; exact hconveys.result⟩
  | mapped o variant mapping hmapping oneof a ha source =>
    obtain ⟨_, hmem, hmaps⟩ := (messageConverter_down hok rfl).mapped mapping hmapping
    obtain ⟨o', ho', rfl⟩ := List.mem_map.mp hmem
    obtain ⟨_, hmem', harms⟩ := hmaps.armed a ha
    obtain ⟨i, hi, rfl⟩ := List.mem_map.mp hmem'
    obtain rfl := hfields.eq (hwf.mem_fields_of_variant ho' hi) hf (harms.source.symm.trans source)
    obtain ⟨t, ht, htarget, hconveys⟩ := harms.target
    exact ⟨t, a.action, ht, htarget, by rw [← hid]; exact hconveys.result⟩

/-- **What the converter of a request writes** are the fields of a known type that do not bypass the
    next version. -/
theorem writes_iff (h : w.chain.Linked count) (hfields : w.chain.UniqueFields)
    (hok : (w.messageConverter .toNext id).result = .ok x) (hf : f ∈ (w.chain.message id).fields)
    (hhop : (w.chain.field f).link.hop = some g)
    (hconvertible : classifyPair (w.chain.field f) (w.chain.field g) ≠ .unconvertible) :
    (∃ name, x.Writes w.chain f name) ↔
      w.chain.TypeKnown f ∧ w.chain.bypasses (.field f) = false := by
  have hmessage : (w.chain.message id).link.next = some x.counterpart :=
    (messageConverter_spec hok).counterpart
  rw [← h.field_next_isSome hf hmessage]
  constructor
  · rintro ⟨name, hwrites⟩
    obtain ⟨t, a, ht, -, haction⟩ := conveys_of_writes h hfields hok hf hwrites
    exact ⟨typeKnown_of_action haction, by simp [ht]⟩
  · rintro ⟨htyped, hsome⟩
    obtain ⟨t, ht⟩ := Option.isSome_iff_exists.mp hsome
    have hnext : (w.chain.field f).link.next = some g := by
      rw [Link.hop, ht, Option.some_or] at hhop
      rw [ht, hhop]
    have haction : (w.action .toNext f g g).result ≠ .ok none := action_ne_none hconvertible htyped
    cases hside : (w.chain.field f).oneof with
    | none => exact ⟨_, writes_of_plain h hok hf hnext haction hside⟩
    | some o => exact ⟨_, writes_of_variant h hok hf hnext haction hside⟩

/-- A converter writes no fields but those of its message. -/
theorem message_of_writes (hwf : w.chain.WellFormed)
    (hok : (w.messageConverter kind id).result = .ok x)
    (hlt : f.index < w.chain.fields.size) {name : String} (hwrites : x.Writes w.chain f name) :
    (w.chain.field f).message = id := by
  have hspec := messageConverter_spec hok
  cases hwrites with
  | assigned a ha field =>
    obtain ⟨_, hmem, _, _, hown, -⟩ := hspec.assignments a ha
    obtain ⟨i, hi, -, rfl⟩ := Chain.mem_plainFields.mp hmem
    obtain ⟨hi, hmessage⟩ := (hwf.mem_fields id i).mp hi
    obtain rfl : i = f := by rw [← hwf.field_id hi, ← hown, field]
    exact hmessage
  | mapped o variant mapping hmapping oneof a ha source =>
    obtain ⟨_, hmem, _, _, hfor⟩ := hspec.oneofs mapping hmapping
    obtain ⟨i, hi, rfl⟩ := List.mem_map.mp hmem
    obtain ⟨hi, hmessage⟩ := (hwf.mem_oneofs id i).mp hi
    obtain rfl : i = o := by rw [← hwf.oneof_id hi, ← hfor.oneof, oneof]
    rw [← hwf.oneof_message_eq hlt variant, hmessage]

/-! ### Deprecated inputs -/

/-- The deprecated fields of a request are its plain fields that are deprecated. -/
theorem mem_deprecatedFields_iff {y : Field × FieldId} :
    y ∈ w.deprecatedFields id ↔ ∃ f ∈ (w.chain.message id).fields, (w.chain.field f).oneof = none ∧
      (w.chain.field f).deprecated ∧ (w.chain.field f).link.final = some y.2 ∧
        y.1 = w.chain.field f := by
  simp only [deprecatedFields, List.mem_filterMap, List.mem_filter, Option.map_eq_some_iff,
    Chain.mem_plainFields]
  constructor
  · rintro ⟨_, ⟨⟨f, hf, hplain, rfl⟩, hdeprecated⟩, p, hp, rfl⟩
    exact ⟨f, hf, hplain, hdeprecated, hp, rfl⟩
  · rintro ⟨f, hf, hplain, hdeprecated, hp, hy⟩
    exact ⟨_, ⟨⟨f, hf, hplain, rfl⟩, hdeprecated⟩, y.2, hp, Prod.ext hy.symm rfl⟩

/-- **What a method forwards** are the deprecated plain fields of a known type. -/
theorem forwards_iff (h : w.chain.Linked count) (hfields : w.chain.UniqueFields) {m : MethodPlan}
    (hinputs : m.deprecatedInputs = (w.deprecatedFields id).filterMap w.inputOf)
    (hactions : ∀ y ∈ w.deprecatedFields
      id, ∃ a, (w.action .toPrivate y.1.id y.2 y.2).result = .ok a)
    (hpublic : (w.chain.message id).version.index + 1 < count)
    (hf : f ∈ (w.chain.message id).fields) (hhop : (w.chain.field f).link.hop = some g)
    (hconvertible : classifyPair (w.chain.field f) (w.chain.field g) ≠ .unconvertible) :
    m.Forwards w.chain f ↔
      w.chain.TypeKnown f ∧ w.chain.bypasses (.field f) ∧ (w.chain.field f).oneof = none := by
  have hwf := h.framed.wellFormed
  have hid : (w.chain.field f).id = f := hwf.field_id ((hwf.mem_fields id f).mp hf).1
  have hcoherent := h.field_coherent hf hpublic
  constructor
  · rintro ⟨hbypass, p, -, i, hi, hname, -⟩
    rw [hinputs] at hi
    obtain ⟨y, hy, hinput⟩ := List.mem_filterMap.mp hi
    obtain ⟨j, hj, hplain, -, -, hfield⟩ := mem_deprecatedFields_iff.mp hy
    obtain ⟨hname', -, haction⟩ := inputOf_eq_some hinput
    rw [hfield] at hname' haction
    obtain rfl := hfields.eq hj hf (hname'.symm.trans hname)
    rw [hid] at haction
    exact ⟨typeKnown_of_action haction, hbypass, hplain⟩
  · rintro ⟨htyped, hbypass, hplain⟩
    have hdeprecated : (w.chain.field f).deprecated := by
      simpa [Chain.bypasses, Chain.isDeprecated, hplain] using hbypass
    -- what bypasses has no next counterpart, so that the hop leads to the private one
    have hfinal : (w.chain.field f).link.final = some g := by
      have hnone : (w.chain.field f).link.next = none := by
        have hnext := hcoherent.next_isSome.not.mpr (by simp [hbypass])
        simpa [Chain.links] using hnext
      rwa [Link.hop, hnone, Option.none_or] at hhop
    have hmem : (w.chain.field f, g) ∈ w.deprecatedFields id :=
      mem_deprecatedFields_iff.mpr ⟨f, hf, hplain, hdeprecated, hfinal, rfl⟩
    obtain ⟨action, haction⟩ := hactions _ hmem
    obtain ⟨action, rfl⟩ : ∃ a, action = some a := by
      cases action with
      | none =>
        rw [hid] at haction
        exact absurd haction (action_ne_none hconvertible htyped)
      | some action => exact ⟨action, rfl⟩
    have hinput : w.inputOf (w.chain.field f, g) = some
        { field := (w.chain.field f).name, privateField := (w.chain.field g).name
          setter := setterName (w.chain.field g).name, repeated := (w.chain.field f).repeated
          action } := by
      rw [inputOf, haction]
    have hforwarded := List.mem_filterMap.mpr ⟨_, hmem, hinput⟩
    rw [← hinputs] at hforwarded
    exact ⟨hbypass, g, hfinal, _, hforwarded, rfl, rfl⟩

end View

namespace Plan

variable {plan : Plan}

/-- A method that goes to the next version: what its converter and its deprecated inputs are. -/
theorem Generated.method_toNext (h : plan.Generated) {vp : VersionPlan} (hvp : vp ∈ plan.versions)
    {m : MethodPlan} (hm : m ∈ vp.methods) (hroute : m.route = .toNext) :
    ∃ w : View, w.chain = plan.chain ∧ m.down = some (w.nameOf ⟨.toNext, .message m.input⟩) ∧
      m.deprecatedInputs = (w.deprecatedFields m.input).filterMap w.inputOf ∧
      (∀ y ∈ w.deprecatedFields m.input,
        ∃ a, (w.action .toPrivate y.1.id y.2 y.2).result = .ok a) ∧
      ∃ t, (plan.chain.message m.input).link.next = some t := by
  obtain ⟨v, -, hok⟩ := forall₂_exists_left h.versions hvp
  obtain ⟨id, -, hplanned⟩ := forall₂_exists_left (Chain.plannedAs_of_versionPlan hok) hm
  obtain ⟨-, rfl⟩ | ⟨-, hplanned⟩ := hplanned
  · cases hroute
  · obtain ⟨t, -, hcheck, rfl⟩ := hplanned.exists_target
    have hway : ((plan.chain.viewOf v).way (plan.chain.method id)).route = .toNext := hroute
    obtain ⟨hkind, -⟩ := View.way_of_next hway
    have hskipping : (plan.chain.viewOf v).skipping (plan.chain.method id)
        = (plan.chain.viewOf v).deprecatedFields (plan.chain.method id).input := by
      rw [View.skipping, hway]
      rfl
    refine ⟨plan.chain.viewOf v, rfl, ?_, ?_, ?_, ?_⟩
    · show some ((plan.chain.viewOf v).nameOf ((plan.chain.viewOf v).request
        ((plan.chain.viewOf v).way (plan.chain.method id)).down _)) = _
      rw [hkind, View.request_of_isDown rfl]
      rfl
    · show ((plan.chain.viewOf v).skipping (plan.chain.method id)).filterMap _ = _
      rw [hskipping]
      rfl
    · have hactions := hplanned.actions
      rw [hskipping] at hactions
      exact hactions
    · rw [hway] at hcheck
      exact ⟨_, (Chain.checkTypes_toNext hcheck).1⟩

section
variable (h : plan.Generated) (hfields : plan.chain.UniqueFields) {vp : VersionPlan}
  (hvp : vp ∈ plan.versions) {m : MethodPlan} (hm : m ∈ vp.methods) (hroute : m.route = .toNext)
  {f g : FieldId} (hf : f ∈ (plan.chain.message m.input).fields)
  (hhop : (plan.chain.field f).link.hop = some g)
  (hconvertible : classifyPair (plan.chain.field f) (plan.chain.field g) ≠ .unconvertible)
include h hfields hvp hm hroute hf hhop hconvertible

/-- What a method forwards. -/
theorem Generated.forwards_iff : m.Forwards plan.chain f ↔
    plan.chain.TypeKnown f ∧ plan.chain.bypasses (.field f) ∧
      (plan.chain.field f).oneof = none := by
  have hlinked := h.linked
  obtain ⟨w, hw, -, hinputs, hactions, t, ht⟩ := h.method_toNext hvp hm hroute
  have hpublic : (plan.chain.message m.input).version.index + 1 < plan.chain.versions.size :=
    hlinked.public_of_leads (n := .message m.input) (Chain.leads_links_message (.inl ht))
  rw [← hw] at hlinked hfields hpublic hf hhop hconvertible ⊢
  exact View.forwards_iff hlinked hfields hinputs hactions hpublic hf hhop hconvertible

/-- What the converter that is found for a method writes: it leads to the next version, for whatever
    message. -/
theorem Generated.writes_iff {n : String} (hdown : m.down = some n) {x : MessageConverter}
    (hx : vp.converter? n = some (.message x)) :
    ((∃ name, x.Writes plan.chain f name) ↔
      x.message = m.input ∧ plan.chain.TypeKnown f ∧ plan.chain.bypasses (.field f) = false) ∧
    ∀ name, x.Writes plan.chain f name →
      ∃ t, (plan.chain.field f).link.next = some t ∧ name = (plan.chain.field t).name := by
  have hwf := h.linked.framed.wellFormed
  obtain ⟨hlt, hmessage⟩ := (hwf.mem_fields _ f).mp hf
  obtain ⟨w, -, hdown', -⟩ := h.method_toNext hvp hm hroute
  obtain ⟨v, -, hspecified⟩ := h.exists_specified hvp
  obtain ⟨hname, table, hok⟩ := hspecified _ _ (Sorted.mem_of_get? hx)
  rw [Option.some.inj (hdown.symm.trans hdown')] at hname
  -- the name tells the kind of the converter, but not its message
  have hkind : (Converter.message x).kind = .toNext := ConverterKind.eq_of_functionName hname
  obtain ⟨hconverter, -⟩ := View.messageConverter_of_converter hok
  rw [show x.kind = .toNext from hkind] at hconverter
  have hown {name : String} (hwritten : x.Writes plan.chain f name) : x.message = m.input := by
    rw [← hmessage]
    exact (View.message_of_writes (w := plan.chain.viewOf v) hwf hconverter hlt hwritten).symm
  have hwrites (hinput : x.message = m.input) : (∃ name, x.Writes plan.chain f name) ↔
      plan.chain.TypeKnown f ∧ plan.chain.bypasses (.field f) = false :=
    View.writes_iff (w := plan.chain.viewOf v) h.linked hfields hconverter
      (by rw [hinput]; exact hf)
      hhop hconvertible
  refine ⟨⟨?_, ?_⟩, fun name hwritten => ?_⟩
  · rintro ⟨name, hwritten⟩
    exact ⟨hown hwritten, (hwrites (hown hwritten)).mp ⟨name, hwritten⟩⟩
  · rintro ⟨hinput, hwritten⟩
    exact (hwrites hinput).mpr hwritten
  · obtain ⟨t, -, ht, htarget, -⟩ :=
      View.conveys_of_writes (w := plan.chain.viewOf v) h.linked hfields
      hconverter (by rw [hown hwritten]; exact hf) hwritten
    exact ⟨t, ht, htarget⟩

end

/-- **No field of a request is dropped**, unless it is a variant that bypasses the next version or
    the converter of another message is found.  In a generated plan, for every method that goes to
    the next version and every field of its request that can be converted: the converter writes it
    or the method forwards it, exactly if its type is known, it is no variant that bypasses the next
    version, and the converter, if it is needed, is that of the request.  What is written is written
    under the name of the next counterpart. -/
theorem handles_of_generate {set : DescriptorSet} {config : Config}
    (h : generate set config = .ok plan) (hfields : plan.chain.UniqueFields) {vp : VersionPlan}
    (hvp : vp ∈ plan.versions) {m : MethodPlan} (hm : m ∈ vp.methods) (hroute : m.route = .toNext)
    {f g : FieldId} (hf : f ∈ (plan.chain.message m.input).fields)
    (hhop : (plan.chain.field f).link.hop = some g)
    (hconvertible : classifyPair (plan.chain.field f) (plan.chain.field g) ≠ .unconvertible) :
    ∃ n, m.down = some n ∧
      (((∃ x name, vp.converter? n = some (.message x) ∧ x.Writes plan.chain f name) ∨
          m.Forwards plan.chain f) ↔
        plan.chain.TypeKnown f ∧
          (plan.chain.bypasses (.field f) → (plan.chain.field f).oneof = none) ∧
          (plan.chain.bypasses (.field f) = false → vp.Converts n m.input)) ∧
      ∀ x name, vp.converter? n = some (.message x) → x.Writes plan.chain f name →
        ∃ t, (plan.chain.field f).link.next = some t ∧ name = (plan.chain.field t).name := by
  have hplan := generated_of_generate h
  obtain ⟨w, -, hdown, -⟩ := hplan.method_toNext hvp hm hroute
  have hwrites {x : MessageConverter} (hx : vp.converter? _ = some (.message x)) :=
    hplan.writes_iff hfields hvp hm hroute hf hhop hconvertible hdown hx
  refine ⟨_, hdown, ?_, fun x name hx => (hwrites hx).2 name⟩
  rw [hplan.forwards_iff hfields hvp hm hroute hf hhop hconvertible]
  -- a field that bypasses the next version can only be forwarded, any other one only written
  constructor
  · rintro (⟨x, name, hx, hwritten⟩ | ⟨htyped, hbypass, hplain⟩)
    · obtain ⟨hown, htyped, hlive⟩ := (hwrites hx).1.mp ⟨name, hwritten⟩
      exact ⟨htyped, by simp [hlive], fun _ => ⟨x, hx, hown⟩⟩
    · exact ⟨htyped, fun _ => hplain, by simp [hbypass]⟩
  · rintro ⟨htyped, hplain, hconverts⟩
    cases hbypass : plan.chain.bypasses (.field f) with
    | true => exact .inr ⟨htyped, rfl, hplain hbypass⟩
    | false =>
      obtain ⟨x, hx, hown⟩ := hconverts hbypass
      obtain ⟨name, hwritten⟩ := (hwrites hx).1.mpr ⟨hown, htyped, hbypass⟩
      exact .inl ⟨x, name, hx, hwritten⟩

set_option maxRecDepth 10000 in
/-- What is checked of the sample by evaluation: fields 0 and 1 are the mail address and the phone
    number of the first version, 2 is the phone number of the second one, and 3 the private mail
    address. -/
theorem contactPlan_requests :
    (contactPlan.versions.any fun vp => vp.methods.any fun m =>
      m.route == .toNext && m.input == ⟨0⟩) = true ∧
    (contactPlan.chain.message ⟨0⟩).fields = [⟨0⟩, ⟨1⟩] ∧
    (contactPlan.chain.field ⟨0⟩).link.hop = some ⟨3⟩ ∧
      (contactPlan.chain.field ⟨1⟩).link.hop = some ⟨2⟩ ∧
    classifyPair (contactPlan.chain.field ⟨0⟩) (contactPlan.chain.field ⟨3⟩) = .copy ∧
    classifyPair (contactPlan.chain.field ⟨1⟩) (contactPlan.chain.field ⟨2⟩) = .copy ∧
    contactPlan.chain.bypasses (.field ⟨0⟩) = true ∧
      (contactPlan.chain.field ⟨0⟩).oneof = some ⟨0⟩ := by
  decide +kernel

/-- A method of the sample that goes to the next version. -/
theorem exists_contactPlan_method :
    ∃ vp m, vp ∈ contactPlan.versions ∧ m ∈ vp.methods ∧ m.route = .toNext ∧ m.input = ⟨0⟩ := by
  obtain ⟨vp, hvp, hany⟩ := List.any_eq_true.mp contactPlan_requests.1
  obtain ⟨m, hm, hcheck⟩ := List.any_eq_true.mp hany
  simp only [Bool.and_eq_true, beq_iff_eq] at hcheck
  exact ⟨vp, m, hvp, hm, hcheck.1, hcheck.2⟩

/-- The phone number of the first version. -/
theorem handles_phone : ∃ vp m n, vp ∈ contactPlan.versions ∧ m ∈ vp.methods ∧ m.route = .toNext ∧
    m.down = some n ∧ contactPlan.chain.UniqueFields ∧
      ⟨1⟩ ∈ (contactPlan.chain.message m.input).fields ∧
    (contactPlan.chain.field ⟨1⟩).link.hop = some ⟨2⟩ ∧
    classifyPair (contactPlan.chain.field ⟨1⟩) (contactPlan.chain.field ⟨2⟩) ≠ .unconvertible ∧
    (((∃ x name, vp.converter? n = some (.message x) ∧ x.Writes contactPlan.chain ⟨1⟩ name) ∨
        m.Forwards contactPlan.chain ⟨1⟩) ↔
      contactPlan.chain.TypeKnown ⟨1⟩ ∧ (contactPlan.chain.bypasses (.field ⟨1⟩) →
          (contactPlan.chain.field ⟨1⟩).oneof = none) ∧
        (contactPlan.chain.bypasses (.field ⟨1⟩) = false → vp.Converts n m.input)) := by
  obtain ⟨vp, m, hvp, hm, hroute, hinput⟩ := exists_contactPlan_method
  obtain ⟨-, hmembers, -, hhop, -, hcopy, -⟩ := contactPlan_requests
  have hfields := contactPlan_checked.2.uniqueFields
  have hf : ⟨1⟩ ∈ (contactPlan.chain.message m.input).fields := by simp [hinput, hmembers]
  have hconvertible : classifyPair (contactPlan.chain.field ⟨1⟩) (contactPlan.chain.field ⟨2⟩)
      ≠ .unconvertible := by simp [hcopy]
  obtain ⟨n, hdown, hiff, -⟩ :=
    handles_of_generate generate_contactSet hfields hvp hm hroute hf hhop hconvertible
  exact ⟨vp, m, n, hvp, hm, hroute, hdown, hfields, hf, hhop, hconvertible, hiff⟩

/-- **Deprecated variants are dropped.** The mail address of the first version, which could be
    copied to the private version, is neither written nor forwarded. -/
theorem not_handled_mail :
    generate contactSet {} = .ok contactPlan ∧ contactPlan.chain.UniqueFields ∧
    ∃ vp m n, vp ∈ contactPlan.versions ∧ m ∈ vp.methods ∧ m.route = .toNext ∧ m.down = some n ∧
      ⟨0⟩ ∈ (contactPlan.chain.message m.input).fields ∧
        (contactPlan.chain.field ⟨0⟩).link.hop = some ⟨3⟩ ∧
      classifyPair (contactPlan.chain.field ⟨0⟩) (contactPlan.chain.field ⟨3⟩) = .copy ∧
      (¬ ∃ x name, vp.converter? n = some (.message x) ∧ x.Writes contactPlan.chain ⟨0⟩ name) ∧
      ¬ m.Forwards contactPlan.chain ⟨0⟩ := by
  obtain ⟨vp, m, hvp, hm, hroute, hinput⟩ := exists_contactPlan_method
  obtain ⟨-, hmembers, hhop, -, hcopy, -, hbypass, hvariant⟩ := contactPlan_requests
  have hplan := generated_of_generate generate_contactSet
  have hfields := contactPlan_checked.2.uniqueFields
  have hf : ⟨0⟩ ∈ (contactPlan.chain.message m.input).fields := by simp [hinput, hmembers]
  have hconvertible : classifyPair (contactPlan.chain.field ⟨0⟩) (contactPlan.chain.field ⟨3⟩)
      ≠ .unconvertible := by simp [hcopy]
  obtain ⟨w, -, hdown, -⟩ := hplan.method_toNext hvp hm hroute
  refine ⟨generate_contactSet, hfields, vp, m, _, hvp, hm, hroute, hdown, hf, hhop, hcopy, ?_, ?_⟩
  · rintro ⟨x, name, hx, hwritten⟩
    have hwrites := hplan.writes_iff hfields hvp hm hroute hf hhop hconvertible hdown hx
    obtain ⟨-, -, hlive⟩ := hwrites.1.mp ⟨name, hwritten⟩
    rw [hbypass] at hlive
    cases hlive
  · intro hforwards
    obtain ⟨-, -, hplain⟩ :=
      (hplan.forwards_iff hfields hvp hm hroute hf hhop hconvertible).mp hforwards
    rw [hvariant] at hplain
    cases hplain

end Plan

end Lineage
