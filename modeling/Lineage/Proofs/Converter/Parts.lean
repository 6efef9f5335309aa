import Lineage.Proofs.Chain.WellFormed
import Lineage.Proofs.Converter.Specify

namespace Lineage

/-!
# What message converters write

* `View.Conveys` — how the value of one field gets to another one; `View.action_copy`,
  `View.Conveys.cases` — it is copied, or converted by the converter of the type of the field,
* `View.MessageParts` — the parts that a message converter is put together from,
* `View.AssignsDown`, `View.AssignsUp` — the assignment of a plain field, read and written by name,
* `View.MapsDown`, `View.MapsUp` — the mapping of a oneof and the arms of its variants,
* `View.DownParts`, `View.UpParts` — all that a converter that leads down or up consists of:
  everything that it writes belongs to a member of the message, and every member is written,
  bypassed or unconverted.
-/

namespace Chain

variable {c : Chain}

/-- The plain fields of a message are its fields without a oneof. -/
theorem mem_plainFields {m : MessageId} {f : Field} :
    f ∈ c.plainFields m ↔ ∃ i ∈ (c.message m).fields, (c.field i).oneof = none ∧ c.field i = f := by
  simp only [plainFields, List.mem_filter, List.mem_map, Option.isNone_iff_eq_none]
  constructor
  · rintro ⟨⟨i, hi, rfl⟩, hplain⟩
    exact ⟨i, hi, hplain, rfl⟩
  · rintro ⟨i, hi, hplain, rfl⟩
    exact ⟨⟨i, hi, rfl⟩, hplain⟩

end Chain

namespace View

variable {w : View}

/-! ### How values get from field to field -/

/-- How the value of a field gets to another one, in a converter that asks for what is needed for
    it. -/
structure Conveys (w : View) (kind : ConverterKind) (field other checked : FieldId) (a : Action)
    (asked : List Request) : Prop where
  result : (w.action kind field other checked).result = .ok (some a)
  requests : (w.action kind field other checked).requests ⊆ asked

/-- There is one way from a field to another. -/
theorem Conveys.unique {kind : ConverterKind} {f other checked : FieldId} {a b : Action}
    {asked asked' : List Request} (h : w.Conveys kind f other checked a asked)
    (h' : w.Conveys kind f other checked b asked') : a = b :=
  Option.some.inj (Except.ok.inj (h.result.symm.trans h'.result))

/-- A scalar of one kind is copied. -/
theorem action_copy {kind : ConverterKind} {f other checked : FieldId}
    (h : classifyPair (w.chain.field f) (w.chain.field other) = .copy) :
    (w.action kind f other checked).result = .ok (some .copy) := by
  simp [action, h]

/-- A nested conversion is done by the converter for the type of the field, which works against the
    type of the field that is checked. -/
structure Nested (w : View) (kind : ConverterKind) (f checked : FieldId) (s t : Subject)
    (a : Action) (asked : List Request) : Prop where
  type : subjectOf (w.chain.field f).typeRef = some s
  other : subjectOf (w.chain.field checked).typeRef = some t
  counterpart : w.counterpart (w.request kind s).kind s = some t
  eq : a = .convert (w.reference (w.request kind s))
  asked : w.request kind s ∈ asked

/-- What is conveyed is copied, or else converted by the converter for the type of the field. -/
theorem Conveys.cases {kind : ConverterKind} {f other checked : FieldId} {a : Action}
    {asked : List Request} (h : w.Conveys kind f other checked a asked) :
    (a = .copy ∧ (classifyPair (w.chain.field f) (w.chain.field other) = .copy ∨
      classifyPair (w.chain.field f) (w.chain.field other) = .shared)) ∨
      ∃ k s t, classifyPair (w.chain.field f) (w.chain.field other) = .convert k ∧
        w.Nested kind f checked s t a asked := by
  obtain ⟨hresult, hrequests⟩ := h
  -- only the ways through `action` that give an action are left
  unfold action at hresult hrequests
  dsimp only at hresult hrequests
  split at hresult
  · rename_i hcopy
    obtain rfl := Option.some.inj (Except.ok.inj hresult)
    exact .inl ⟨rfl, .inl hcopy⟩
  · rename_i hshared
    obtain rfl := Option.some.inj (Except.ok.inj hresult)
    exact .inl ⟨rfl, .inr hshared⟩
  · cases hresult
  · rename_i k hconvert
    rw [hconvert] at hrequests
    dsimp only at hrequests
    split at hresult
    · cases hresult
    · rename_i s hs
      rw [hs] at hrequests
      dsimp only at hrequests
      split at hresult
      · rename_i hexpected
        rw [if_pos hexpected] at hrequests
        obtain rfl := Option.some.inj (Except.ok.inj hresult)
        obtain ⟨hsome, hcounterpart⟩ := Bool.and_eq_true_iff.mp hexpected
        obtain ⟨t, ht⟩ := Option.isSome_iff_exists.mp hsome
        refine .inr ⟨k, s, t, hconvert, hs, ht, ?_, rfl, hrequests List.mem_cons_self⟩
        rw [ht] at hcounterpart
        exact beq_iff_eq.mp hcounterpart
      · cases hresult

/-! ### The parts of a converter -/

/-- The converter that the parts of the converter of a kind for a message belong to. -/
def head (w : View) (kind : ConverterKind) (id : MessageId) : Head where
  function := kind.functionName (w.chain.message id).localName
  kind := kind
  shape := w.shape kind
  publicName := (w.chain.message id).fullName

/-- The parts that the converter of a kind for a message is put together from. -/
structure MessageParts (w : View) (kind : ConverterKind) (id : MessageId) (x : MessageConverter)
    (asked : List Request) (fields : List FieldPart) (oneofs : List OneofPart) : Prop where
  eachField : List.Forall₂
      (fun f part => ((if w.shape kind == .down then w.downField (w.head kind id)
      else w.upField (w.head kind id)) f).result = .ok part) (w.chain.plainFields id) fields
  eachOneof : List.Forall₂
      (fun o part => ((if w.shape kind == .down then w.downOneof (w.head kind id)
      else w.upOneof (w.head kind id)) o).result = .ok part)
    ((w.chain.message id).oneofs.map w.chain.oneof) oneofs
  askedFields : ∀ f ∈ w.chain.plainFields id, ((if w.shape kind == .down then
      w.downField (w.head kind id) else w.upField (w.head kind id)) f).requests ⊆ asked
  askedOneofs : ∀ o ∈ (w.chain.message id).oneofs.map w.chain.oneof, ((if w.shape kind == .down then
      w.downOneof (w.head kind id) else w.upOneof (w.head kind id)) o).requests ⊆ asked
  publicName : x.publicName = (w.chain.message id).fullName
  counterpartName : x.counterpartName = (w.chain.message x.counterpart).fullName
  required : x.required = fields.filterMap (·.required) ++ oneofs.filterMap (·.required)
  assignments : x.assignments = fields.filterMap (·.assignment)
  mappings : x.oneofs = oneofs.filterMap (·.mapping)
  unconverted : x.unconverted =
    fields.filterMap (·.unconverted) ++ oneofs.flatMap (·.unconverted)

section
variable {kind : ConverterKind} {id : MessageId} {x : MessageConverter} {asked : List Request}
  {fields : List FieldPart} {oneofs : List OneofPart}
  (h : w.MessageParts kind id x asked fields oneofs)
include h

/-- The members of a converter that leads down. -/
theorem MessageParts.downward (hdown : kind.isDown) :
    List.Forall₂ (fun f part => (w.downField (w.head kind id) f).result = .ok part)
        (w.chain.plainFields id) fields ∧
      List.Forall₂ (fun o part => (w.downOneof (w.head kind id) o).result = .ok part)
        ((w.chain.message id).oneofs.map w.chain.oneof) oneofs ∧
      (∀ f ∈ w.chain.plainFields id, (w.downField (w.head kind id) f).requests ⊆ asked) ∧
      ∀ o ∈ (w.chain.message id).oneofs.map w.chain.oneof,
        (w.downOneof (w.head kind id) o).requests ⊆ asked := by
  obtain ⟨hfields, honeofs, haskedFields, haskedOneofs, -⟩ := h
  rw [shape_beq_down, hdown] at hfields honeofs haskedFields haskedOneofs
  exact ⟨hfields, honeofs, haskedFields, haskedOneofs⟩

/-- The members of a converter that leads up. -/
theorem MessageParts.upward (hup : kind.isDown = false) :
    List.Forall₂ (fun f part => (w.upField (w.head kind id) f).result = .ok part)
        (w.chain.plainFields id) fields ∧
      List.Forall₂ (fun o part => (w.upOneof (w.head kind id) o).result = .ok part)
        ((w.chain.message id).oneofs.map w.chain.oneof) oneofs ∧
      (∀ f ∈ w.chain.plainFields id, (w.upField (w.head kind id) f).requests ⊆ asked) ∧
      ∀ o ∈ (w.chain.message id).oneofs.map w.chain.oneof,
        (w.upOneof (w.head kind id) o).requests ⊆ asked := by
  obtain ⟨hfields, honeofs, haskedFields, haskedOneofs, -⟩ := h
  rw [shape_beq_down, hup] at hfields honeofs haskedFields haskedOneofs
  exact ⟨hfields, honeofs, haskedFields, haskedOneofs⟩

end

/-- A message converter is made of the parts of its fields and oneofs. -/
theorem messageConverter_parts {kind : ConverterKind} {id : MessageId} {x : MessageConverter}
    (hok : (w.messageConverter kind id).result = .ok x) : ∃ fields oneofs,
      w.MessageParts kind id x (w.messageConverter kind id).requests fields oneofs := by
  unfold messageConverter at hok ⊢
  dsimp only at hok ⊢
  split at hok
  · cases hok
  · rename_i hlive
    rw [if_neg hlive]
    obtain ⟨counterpart, hcounterpart, hok⟩ := Traced.bind_result.mp hok
    obtain ⟨fields, hfields, hok⟩ := Traced.bind_result.mp hok
    obtain ⟨oneofs, honeofs, hok⟩ := Traced.bind_result.mp hok
    rw [Traced.bind_requests hcounterpart, Traced.bind_requests hfields,
      Traced.bind_requests honeofs]
    obtain rfl := Except.ok.inj hok
    obtain ⟨hallFields, haskedFields⟩ := Traced.mapM_result hfields
    obtain ⟨hallOneofs, haskedOneofs⟩ := Traced.mapM_result honeofs
    -- what a list of members asks for is all that its members ask for
    refine ⟨fields, oneofs, hallFields, hallOneofs, fun f hf q hq => ?_, fun o ho q hq => ?_,
      rfl, rfl, rfl, rfl, rfl, rfl⟩
    · have hmem : q ∈ (w.chain.plainFields id).flatMap fun f => ((if w.shape kind == .down then
          w.downField (w.head kind id) else w.upField (w.head kind id)) f).requests :=
        List.mem_flatMap.mpr ⟨f, hf, hq⟩
      exact List.mem_append_right _ (List.mem_append_left _ (haskedFields ▸ hmem))
    · have hmem : q ∈ ((w.chain.message id).oneofs.map w.chain.oneof).flatMap fun o =>
          ((if w.shape kind == .down then w.downOneof (w.head kind id)
            else w.upOneof (w.head kind id)) o).requests :=
        List.mem_flatMap.mpr ⟨o, ho, hq⟩
      exact List.mem_append_right _ (List.mem_append_right _
        (List.mem_append_left _ (haskedOneofs ▸ hmem)))

/-! ### Parts that lead down -/

/-- The one of two links that a converter that leads down follows. -/
def downLink {Id : Type} (kind : ConverterKind) (l : Link Id) : Option Id :=
  if kind == .toNext then l.next else l.final

/-- The assignment of a plain field on the way down. -/
structure AssignsDown (w : View) (kind : ConverterKind) (asked : List Request) (f : Field)
    (a : Assignment) : Prop where
  live : ¬(kind = .toNext ∧ f.deprecated)
  source : a.source = f.name
  target : ∃ t, downLink kind f.link = some t ∧ a.target = (w.chain.field t).name ∧
    w.Conveys kind f.id t t a.action asked
  side : a.side = .ofPublic
  besides : a.privateSource = none

/-- What becomes of a plain field on the way down. -/
theorem downField_cases {h : Head} {f : Field} {part : FieldPart} {asked : List Request}
    (hok : (w.downField h f).result = .ok part) (hasked : (w.downField h f).requests ⊆ asked) :
    part.required = none ∧
      (h.kind = .toNext ∧ f.deprecated ∧ part.assignment = none ∧ part.unconverted = none ∨
        (∃ t, downLink h.kind f.link = some t ∧ (w.action h.kind f.id t t).result = .ok none ∧
          part.assignment = none ∧ part.unconverted = some f.name) ∨
        ∃ a, part.assignment = some a ∧ part.unconverted = none ∧
          w.AssignsDown h.kind asked f a) := by
  unfold downField at hok hasked
  -- a deprecated field is passed over before its link is looked at, so it may have none
  split at hok
  · rename_i hskip
    obtain rfl := Except.ok.inj hok
    obtain ⟨hkind, hdeprecated⟩ := Bool.and_eq_true_iff.mp hskip
    exact ⟨rfl, .inl ⟨beq_iff_eq.mp hkind, hdeprecated, rfl, rfl⟩⟩
  · rename_i hlive
    rw [if_neg hlive] at hasked
    obtain ⟨t, ht, hok⟩ := Traced.bind_result.mp hok
    obtain ⟨action, haction, hok⟩ := Traced.bind_result.mp hok
    rw [Traced.bind_requests ht, Traced.bind_requests haction] at hasked
    have ht' : downLink h.kind f.link = some t := orUnresolved_eq_ok.mp ht
    cases action with
    | none =>
      obtain rfl := Except.ok.inj hok
      exact ⟨rfl, .inr (.inl ⟨t, ht', haction, rfl, rfl⟩)⟩
    | some action =>
      obtain rfl := Except.ok.inj hok
      refine ⟨rfl, .inr
        (.inr ⟨_, rfl, rfl, ?_, rfl, ⟨t, ht', rfl, haction, fun q hq => ?_⟩, rfl, rfl⟩)⟩
      · rintro ⟨hkind, hdeprecated⟩
        exact hlive (by simp [hkind, hdeprecated])
      · exact hasked (List.mem_append_right _ (List.mem_append_left _ hq))

/-- What is assigned for a plain field on the way down. -/
theorem downField_assigns {h : Head} {f : Field} {part : FieldPart} {asked : List Request}
    {a : Assignment} (hok : (w.downField h f).result = .ok part)
    (hasked : (w.downField h f).requests ⊆ asked) (ha : part.assignment = some a) :
    a.field = f.id ∧ w.AssignsDown h.kind asked f a := by
  have hfield := ((downField_yields hok).of_some ha).1
  obtain ⟨-, ⟨-, -, hnone, -⟩ | ⟨_, -, -, hnone, -⟩ | ⟨b, hb, -, hassigns⟩⟩ :=
    downField_cases hok hasked
  · cases hnone.symm.trans ha
  · cases hnone.symm.trans ha
  · obtain rfl := Option.some.inj (hb.symm.trans ha)
    exact ⟨hfield, hassigns⟩

/-- The arm of a variant on the way down. -/
structure ArmsDown (w : View) (kind : ConverterKind) (asked : List Request) (v : Field)
    (a : VariantArm) : Prop where
  source : a.source = v.name
  target : ∃ t, downLink kind v.link = some t ∧ a.target = (w.chain.field t).name ∧
    w.Conveys kind v.id t t a.action asked
  besides : a.privateSource = none

/-- What becomes of a variant on the way down. -/
theorem downArm_cases {h : Head} {v : Field} {part : ArmPart} {asked : List Request}
    (hok : (w.downArm h v).result = .ok part) (hasked : (w.downArm h v).requests ⊆ asked) :
    part.arm? = none ∧ (h.kind = .toNext ∧ v.deprecated ∨ downLink h.kind v.link = none) ∨
      part.arm? = none ∧ part.unconverted? = some v.name ∨
      ∃ a, part.arm? = some a ∧ w.ArmsDown h.kind asked v a := by
  unfold downArm at hok hasked
  dsimp only at hok hasked
  split at hok
  · rename_i hnone
    obtain rfl := Except.ok.inj hok
    -- no arm: the variant bypasses the next version, or it leads nowhere
    refine .inl ⟨rfl, ?_⟩
    split at hnone
    · rename_i hskip
      obtain ⟨hkind, hdeprecated⟩ := Bool.and_eq_true_iff.mp hskip
      exact .inl ⟨beq_iff_eq.mp hkind, hdeprecated⟩
    · exact .inr hnone
  · rename_i t ht
    rw [ht] at hasked
    have ht' : downLink h.kind v.link = some t := by
      split at ht
      · cases ht
      · exact ht
    obtain ⟨action, haction, hok⟩ := Traced.bind_result.mp hok
    rw [Traced.bind_requests haction] at hasked
    cases action with
    | none =>
      obtain rfl := Except.ok.inj hok
      exact .inr (.inl ⟨rfl, rfl⟩)
    | some action =>
      obtain rfl := Except.ok.inj hok
      exact .inr (.inr ⟨_, rfl, rfl, ⟨t, ht', rfl, haction, fun q hq =>
        hasked (List.mem_append_left _ hq)⟩, rfl⟩)

/-- An arm on the way down is that of its variant. -/
theorem downArm_arms {h : Head} {v : Field} {part : ArmPart} {asked : List Request} {a : VariantArm}
    (hok : (w.downArm h v).result = .ok part) (hasked : (w.downArm h v).requests ⊆ asked)
    (ha : part.arm? = some a) : w.ArmsDown h.kind asked v a := by
  obtain ⟨hnone, -⟩ | ⟨hnone, -⟩ | ⟨b, hb, harms⟩ := downArm_cases hok hasked
  · cases hnone.symm.trans ha
  · cases hnone.symm.trans ha
  · obtain rfl := Option.some.inj (hb.symm.trans ha)
    exact harms

/-- The mapping of a oneof on the way down. -/
structure MapsDown (w : View) (kind : ConverterKind) (asked : List Request)
    (unconverted : List String) (o : Oneof) (g : OneofMapping) : Prop where
  side : g.side = .ofPublic
  source : g.source = o.name
  target : ∃ t, downLink kind o.link = some t ∧ g.target = (w.chain.oneof t).name
  armed : ∀ a ∈ g.arms, ∃ v ∈ o.fields.map w.chain.field, w.ArmsDown kind asked v a
  variants : ∀ v ∈ o.fields.map w.chain.field,
    (kind = .toNext ∧ v.deprecated ∨ downLink kind v.link = none) ∨ v.name ∈ unconverted ∨
      ∃ a ∈ g.arms, w.ArmsDown kind asked v a

/-- What becomes of a oneof on the way down. -/
theorem downOneof_cases {h : Head} {o : Oneof} {part : OneofPart} {asked : List Request}
    (hok : (w.downOneof h o).result = .ok part) (hasked : (w.downOneof h o).requests ⊆ asked) :
    part.mapping = none ∧ (h.kind = .toNext ∧ o.deprecated ∨ downLink h.kind o.link = none) ∨
      ∃ g, part.mapping = some g ∧ w.MapsDown h.kind asked part.unconverted o g := by
  unfold downOneof at hok hasked
  dsimp only at hok hasked
  split at hok
  · rename_i hnone
    obtain rfl := Except.ok.inj hok
    -- no mapping: the oneof bypasses the next version, or it leads nowhere
    refine .inl ⟨rfl, ?_⟩
    split at hnone
    · rename_i hskip
      obtain ⟨hkind, hdeprecated⟩ := Bool.and_eq_true_iff.mp hskip
      exact .inl ⟨beq_iff_eq.mp hkind, hdeprecated⟩
    · exact .inr hnone
  · rename_i t ht
    rw [ht] at hasked
    have ht' : downLink h.kind o.link = some t := by
      split at ht
      · cases ht
      · exact ht
    obtain ⟨parts, hparts, hok⟩ := Traced.bind_result.mp hok
    rw [Traced.bind_requests hparts] at hasked
    obtain ⟨hall, hrequests⟩ := Traced.mapM_result hparts
    obtain rfl := Except.ok.inj hok
    have hvariant : ∀ v ∈ o.fields.map w.chain.field, (w.downArm h v).requests ⊆ asked :=
      fun v hv q hq => hasked (List.mem_append_left _
        (hrequests ▸ List.mem_flatMap.mpr ⟨v, hv, hq⟩))
    refine .inr ⟨_, rfl, rfl, rfl, ⟨t, ht', rfl⟩, fun a ha => ?_, fun v hv => ?_⟩
    · obtain ⟨v, hv, part, hresult, harm⟩ := exists_of_mem_filterMap hall ha
      exact ⟨v, hv, downArm_arms hresult (hvariant v hv) harm⟩
    · obtain ⟨part, hpart, hresult⟩ := forall₂_exists_right hall hv
      obtain ⟨-, hskip⟩ | ⟨-, hun⟩ | ⟨a, ha, harms⟩ := downArm_cases hresult (hvariant v hv)
      · exact .inl hskip
      · exact .inr (.inl (List.mem_filterMap.mpr ⟨part, hpart, hun⟩))
      · exact .inr (.inr ⟨a, List.mem_filterMap.mpr ⟨part, hpart, ha⟩, harms⟩)

/-- A mapping on the way down is that of its oneof. -/
theorem downOneof_maps {h : Head} {o : Oneof} {part : OneofPart} {asked : List Request}
    {g : OneofMapping} (hok : (w.downOneof h o).result = .ok part)
    (hasked : (w.downOneof h o).requests ⊆ asked) (hg : part.mapping = some g) :
    w.MapsDown h.kind asked part.unconverted o g := by
  obtain ⟨hnone, -⟩ | ⟨g', hg', hmaps⟩ := downOneof_cases hok hasked
  · cases hnone.symm.trans hg
  · obtain rfl := Option.some.inj (hg'.symm.trans hg)
    exact hmaps

/-- What a converter that leads down consists of. -/
structure DownParts (w : View) (kind : ConverterKind) (id : MessageId) (x : MessageConverter)
    (asked : List Request) : Prop where
  assigned : ∀ a ∈ x.assignments, ∃ f ∈ w.chain.plainFields id, w.AssignsDown kind asked f a
  fields : ∀ f ∈ w.chain.plainFields id, (kind = .toNext ∧ f.deprecated) ∨
    (∃ t, downLink kind f.link = some t ∧ (w.action kind f.id t t).result = .ok none ∧
      f.name ∈ x.unconverted) ∨
    ∃ a ∈ x.assignments, w.AssignsDown kind asked f a
  mapped : ∀ g ∈ x.oneofs, ∃ o ∈ (w.chain.message id).oneofs.map w.chain.oneof,
    w.MapsDown kind asked x.unconverted o g
  oneofs : ∀ o ∈ (w.chain.message id).oneofs.map w.chain.oneof,
    (kind = .toNext ∧ o.deprecated ∨ downLink kind o.link = none) ∨
    ∃ g ∈ x.oneofs, w.MapsDown kind asked x.unconverted o g

/-- A mapping stays one when more names are reported. -/
theorem MapsDown.mono {kind : ConverterKind} {asked : List Request} {names names' : List String}
    {o : Oneof} {g : OneofMapping} (h : w.MapsDown kind asked names o g) (hsub : names ⊆ names') :
    w.MapsDown kind asked names' o g :=
  { h with variants := fun v hv => (h.variants v hv).imp_right (Or.imp_left fun hn => hsub hn) }

/-- **Converters that lead down**: every member of the message is written, bypassed
    or unconverted. -/
theorem messageConverter_down {kind : ConverterKind} {id : MessageId} {x : MessageConverter}
    (hok : (w.messageConverter kind id).result = .ok x) (hdown : kind.isDown) :
    w.DownParts kind id x (w.messageConverter kind id).requests := by
  obtain ⟨fields, oneofs, h⟩ := messageConverter_parts hok
  obtain ⟨hfields, honeofs, haskedFields, haskedOneofs⟩ := h.downward hdown
  constructor
  case assigned =>
    intro a ha
    rw [h.assignments] at ha
    obtain ⟨f, hf, part, hresult, hassignment⟩ := exists_of_mem_filterMap hfields ha
    exact ⟨f, hf, (downField_assigns hresult (haskedFields f hf) hassignment).2⟩
  case fields =>
    intro f hf
    rw [h.assignments, h.unconverted]
    obtain ⟨part, hpart, hresult⟩ := forall₂_exists_right hfields hf
    obtain ⟨-, ⟨hkind, hdeprecated, -⟩ | ⟨t, ht, haction, -, hname⟩ | ⟨a, ha, -, hassigns⟩⟩ :=
      downField_cases hresult (haskedFields f hf)
    · exact .inl ⟨hkind, hdeprecated⟩
    · exact .inr (.inl ⟨t, ht, haction,
        List.mem_append_left _ (List.mem_filterMap.mpr ⟨part, hpart, hname⟩)⟩)
    · exact .inr (.inr ⟨a, List.mem_filterMap.mpr ⟨part, hpart, ha⟩, hassigns⟩)
  case mapped =>
    intro g hg
    rw [h.mappings] at hg
    rw [h.unconverted]
    obtain ⟨part, hpart, hmapping⟩ := List.mem_filterMap.mp hg
    obtain ⟨o, ho, hresult⟩ := forall₂_exists_left honeofs hpart
    exact ⟨o, ho, (downOneof_maps hresult (haskedOneofs o ho) hmapping).mono fun n hn =>
      List.mem_append_right _ (List.mem_flatMap.mpr ⟨part, hpart, hn⟩)⟩
  case oneofs =>
    intro o ho
    rw [h.mappings, h.unconverted]
    obtain ⟨part, hpart, hresult⟩ := forall₂_exists_right honeofs ho
    obtain ⟨-, hskip⟩ | ⟨g, hg, hmaps⟩ := downOneof_cases hresult (haskedOneofs o ho)
    · exact .inl hskip
    · exact .inr ⟨g, List.mem_filterMap.mpr ⟨part, hpart, hg⟩, hmaps.mono fun n hn =>
        List.mem_append_right _ (List.mem_flatMap.mpr ⟨part, hpart, hn⟩)⟩

/-! ### Parts that lead up -/

/-- Whether a plain field is read from the private record on the way up. -/
def readsPrivate (w : View) (shape : Shape) (f : Field) : Bool :=
  shape == .upFromPrivate || f.deprecated || w.typeDeprecated f

/-- The one of two links that leads to where a value is read from on the way up. -/
def upLink {Id : Type} (fromPrivate : Bool) (l : Link Id) : Option Id :=
  if fromPrivate then l.final else l.next

/-- The record that a value is read from on the way up. -/
def upSide (fromPrivate : Bool) : Side := if fromPrivate then .ofPrivate else .ofNext

/-- The assignment of a plain field on the way up. -/
structure AssignsUp (w : View) (h : Head) (asked : List Request) (f : Field) (a : Assignment) :
    Prop where
  side : a.side = upSide (w.readsPrivate h.shape f)
  source : ∃ s, upLink (w.readsPrivate h.shape f) f.link = some s ∧
    a.source = (w.chain.field s).name ∧
    w.Conveys (nestedUp h (w.readsPrivate h.shape f)) f.id s s a.action asked
  target : a.target = f.name
  besides : a.privateSource = w.besides a.side f.link.final

/-- The check of a plain field that must be set on the record it is received from. -/
def ReceivesField (w : View) (shape : Shape) (f : Field) (q : RequiredCheck) : Prop :=
  ∃ s, upLink (w.readsPrivate shape f) f.link = some s ∧
    q = { side := upSide (w.readsPrivate shape f), name := (w.chain.field s).name
          target := .field, publicName := f.name }

/-- What becomes of a plain field on the way up. -/
theorem upField_cases {h : Head} {f : Field} {part : FieldPart} {asked : List Request}
    (hok : (w.upField h f).result = .ok part) (hasked : (w.upField h f).requests ⊆ asked) :
    (f.receiveRequired = false ∧ part.required = none ∨
        f.receiveRequired = true ∧ ∃ q, part.required = some q ∧ w.ReceivesField h.shape f q) ∧
      ((∃ s, upLink (w.readsPrivate h.shape f) f.link = some s ∧
          (w.action (nestedUp h (w.readsPrivate h.shape f)) f.id s s).result = .ok none ∧
          part.assignment = none ∧ part.unconverted = some f.name) ∨
        ∃ a, part.assignment = some a ∧ w.AssignsUp h asked f a) := by
  unfold upField at hok hasked
  dsimp only at hok hasked
  obtain ⟨s, hs, hok⟩ := Traced.bind_result.mp hok
  obtain ⟨action, haction, hok⟩ := Traced.bind_result.mp hok
  rw [Traced.bind_requests hs, Traced.bind_requests haction] at hasked
  have hs' : upLink (w.readsPrivate h.shape f) f.link = some s := orUnresolved_eq_ok.mp hs
  -- the check is due whether or not there is an action
  have hrequired : ∀ {required : Option RequiredCheck}, required =
      (if f.receiveRequired then
        some { side := upSide (w.readsPrivate h.shape f), name := (w.chain.field s).name
               target := .field, publicName := f.name }
      else none) →
      f.receiveRequired = false ∧ required = none ∨
        f.receiveRequired = true ∧ ∃ q, required = some q ∧ w.ReceivesField h.shape f q := by
    rintro _ rfl
    cases f.receiveRequired with
    | false => exact .inl ⟨rfl, rfl⟩
    | true => exact .inr ⟨rfl, _, rfl, s, hs', rfl⟩
  cases action with
  | none =>
    obtain rfl := Except.ok.inj hok
    exact ⟨hrequired rfl, .inl ⟨s, hs', haction, rfl, rfl⟩⟩
  | some action =>
    obtain rfl := Except.ok.inj hok
    refine ⟨hrequired rfl, .inr ⟨_, rfl, rfl, ⟨s, hs', rfl, haction, fun q hq => ?_⟩, rfl, rfl⟩⟩
    exact hasked (List.mem_append_right _ (List.mem_append_left _ hq))

/-- What is assigned for a plain field on the way up. -/
theorem upField_assigns {h : Head} {f : Field} {part : FieldPart} {asked : List Request}
    {a : Assignment} (hok : (w.upField h f).result = .ok part)
    (hasked : (w.upField h f).requests ⊆ asked) (ha : part.assignment = some a) :
    a.field = f.id ∧ w.AssignsUp h asked f a := by
  have hfield := ((upField_yields hok).of_some ha).1
  obtain ⟨-, ⟨_, -, -, hnone, -⟩ | ⟨b, hb, hassigns⟩⟩ := upField_cases hok hasked
  · cases hnone.symm.trans ha
  · obtain rfl := Option.some.inj (hb.symm.trans ha)
    exact ⟨hfield, hassigns⟩

/-- The arm of a variant on the way up. -/
structure ArmsUp (w : View) (h : Head) (fromPrivate : Bool) (asked : List Request) (v : Field)
    (a : VariantArm) : Prop where
  live : fromPrivate = false → v.deprecated = false
  source : ∃ s, upLink fromPrivate v.link = some s ∧ a.source = (w.chain.field s).name ∧
    w.Conveys (nestedUp h fromPrivate) v.id s
      (w.checkedVariant fromPrivate (nestedUp h fromPrivate) v s) a.action asked
  target : a.target = v.name
  besides : a.privateSource = w.besides (upSide fromPrivate) v.link.final

/-- What becomes of a variant on the way up. -/
theorem upArm_cases {h : Head} {fromPrivate : Bool} {v : Field} {part : ArmPart}
    {asked : List Request} (hok : (w.upArm h fromPrivate v).result = .ok part)
    (hasked : (w.upArm h fromPrivate v).requests ⊆ asked) :
    part.arm? = none ∧ (fromPrivate = false ∧ v.deprecated ∨ upLink fromPrivate v.link = none) ∨
      part.arm? = none ∧ part.unconverted? = some v.name ∨
      ∃ a, part.arm? = some a ∧ w.ArmsUp h fromPrivate asked v a := by
  -- where is read from decides whether a deprecated variant is passed over, and which link counts
  have hlink : (if ((if fromPrivate then Side.ofPrivate else .ofNext) == .ofNext && v.deprecated)
      then none else if fromPrivate then v.link.final else v.link.next)
      = if (!fromPrivate && v.deprecated) then none else upLink fromPrivate v.link := by
    cases fromPrivate <;> rfl
  unfold upArm at hok hasked
  dsimp only at hok hasked
  rw [hlink] at hok hasked
  split at hok
  · rename_i hnone
    obtain rfl := Except.ok.inj hok
    refine .inl ⟨rfl, ?_⟩
    split at hnone
    · rename_i hskip
      obtain ⟨hside, hdeprecated⟩ := Bool.and_eq_true_iff.mp hskip
      exact .inl ⟨by simpa using hside, hdeprecated⟩
    · exact .inr hnone
  · rename_i s hs
    rw [hs] at hasked
    obtain ⟨hlive, hs'⟩ : (fromPrivate = false → v.deprecated = false) ∧
        upLink fromPrivate v.link = some s := by
      split at hs
      · cases hs
      · rename_i hin
        exact ⟨fun hnext => by simpa [hnext] using hin, hs⟩
    obtain ⟨action, haction, hok⟩ := Traced.bind_result.mp hok
    rw [Traced.bind_requests haction] at hasked
    cases action with
    | none =>
      obtain rfl := Except.ok.inj hok
      exact .inr (.inl ⟨rfl, rfl⟩)
    | some action =>
      obtain rfl := Except.ok.inj hok
      exact .inr (.inr ⟨_, rfl, hlive, ⟨s, hs', rfl, haction, fun q hq =>
        hasked (List.mem_append_left _ hq)⟩, rfl, rfl⟩)

/-- An arm on the way up is that of its variant. -/
theorem upArm_arms {h : Head} {fromPrivate : Bool} {v : Field} {part : ArmPart}
    {asked : List Request} {a : VariantArm} (hok : (w.upArm h fromPrivate v).result = .ok part)
    (hasked : (w.upArm h fromPrivate v).requests ⊆ asked) (ha : part.arm? = some a) :
    w.ArmsUp h fromPrivate asked v a := by
  obtain ⟨hnone, -⟩ | ⟨hnone, -⟩ | ⟨b, hb, harms⟩ := upArm_cases hok hasked
  · cases hnone.symm.trans ha
  · cases hnone.symm.trans ha
  · obtain rfl := Option.some.inj (hb.symm.trans ha)
    exact harms

/-- The mapping of a oneof on the way up. -/
structure MapsUp (w : View) (h : Head) (asked : List Request) (unconverted : List String)
    (o : Oneof) (g : OneofMapping) : Prop where
  side : g.side = upSide (h.shape == .upFromPrivate || o.deprecated)
  source : ∃ s, upLink (h.shape == .upFromPrivate || o.deprecated) o.link = some s ∧
    g.source = (w.chain.oneof s).name
  target : g.target = o.name
  besides : g.privateSource =
    if g.side == .ofNext then o.link.final.map fun p => (w.chain.oneof p).name else none
  armed : ∀ a ∈ g.arms, ∃ v ∈ o.fields.map w.chain.field,
    w.ArmsUp h (h.shape == .upFromPrivate || o.deprecated) asked v a
  variants : ∀ v ∈ o.fields.map w.chain.field,
    ((h.shape == .upFromPrivate || o.deprecated) = false ∧ v.deprecated ∨
      upLink (h.shape == .upFromPrivate || o.deprecated) v.link = none) ∨
    v.name ∈ unconverted ∨
      ∃ a ∈ g.arms, w.ArmsUp h (h.shape == .upFromPrivate || o.deprecated) asked v a

/-- The check of a oneof of which a variant must be set on the record it is received from. -/
def ReceivesOneof (w : View) (shape : Shape) (o : Oneof) (q : RequiredCheck) : Prop :=
  ∃ s, upLink (shape == .upFromPrivate || o.deprecated) o.link = some s ∧
    q = { side := upSide (shape == .upFromPrivate || o.deprecated), name := (w.chain.oneof s).name
          target := .oneof, publicName := o.name }

/-- What becomes of a oneof on the way up. -/
theorem upOneof_cases {h : Head} {o : Oneof} {part : OneofPart} {asked : List Request}
    (hok : (w.upOneof h o).result = .ok part) (hasked : (w.upOneof h o).requests ⊆ asked) :
    (o.receiveRequired = false ∧ part.required = none ∨
        o.receiveRequired = true ∧ ∃ q, part.required = some q ∧ w.ReceivesOneof h.shape o q) ∧
      ∃ g, part.mapping = some g ∧ w.MapsUp h asked part.unconverted o g := by
  unfold upOneof at hok hasked
  dsimp only at hok hasked
  obtain ⟨s, hs, hok⟩ := Traced.bind_result.mp hok
  obtain ⟨parts, hparts, hok⟩ := Traced.bind_result.mp hok
  rw [Traced.bind_requests hs, Traced.bind_requests hparts] at hasked
  obtain ⟨hall, hrequests⟩ := Traced.mapM_result hparts
  obtain rfl := Except.ok.inj hok
  have hs' : upLink (h.shape == .upFromPrivate || o.deprecated) o.link = some s :=
    orUnresolved_eq_ok.mp hs
  -- the variants are read from where the oneof is
  have hvariant : ∀ v ∈ o.fields.map w.chain.field,
      (w.upArm h (h.shape == .upFromPrivate || o.deprecated) v).requests ⊆ asked :=
    fun v hv q hq => hasked (List.mem_append_right _ (List.mem_append_left _
      (hrequests ▸ List.mem_flatMap.mpr ⟨v, hv, hq⟩)))
  refine ⟨?_, _, rfl, rfl, ⟨s, hs', rfl⟩, rfl, rfl, fun a ha => ?_, fun v hv => ?_⟩
  · cases ho : o.receiveRequired with
    | false => exact .inl ⟨rfl, rfl⟩
    | true => exact .inr ⟨rfl, _, rfl, s, hs', rfl⟩
  · obtain ⟨v, hv, part, hresult, harm⟩ := exists_of_mem_filterMap hall ha
    exact ⟨v, hv, upArm_arms hresult (hvariant v hv) harm⟩
  · obtain ⟨part, hpart, hresult⟩ := forall₂_exists_right hall hv
    obtain ⟨-, hskip⟩ | ⟨-, hun⟩ | ⟨a, ha, harms⟩ := upArm_cases hresult (hvariant v hv)
    · exact .inl hskip
    · exact .inr (.inl (List.mem_filterMap.mpr ⟨part, hpart, hun⟩))
    · exact .inr (.inr ⟨a, List.mem_filterMap.mpr ⟨part, hpart, ha⟩, harms⟩)

/-- What a converter that leads up consists of. -/
structure UpParts (w : View) (kind : ConverterKind) (id : MessageId) (x : MessageConverter)
    (asked : List Request) : Prop where
  assigned : ∀ a ∈ x.assignments, ∃ f ∈ w.chain.plainFields id,
    w.AssignsUp (w.head kind id) asked f a
  fields : ∀ f ∈ w.chain.plainFields id,
    (∃ s, upLink (w.readsPrivate (w.shape kind) f) f.link = some s ∧
      (w.action (nestedUp (w.head kind id) (w.readsPrivate (w.shape kind) f)) f.id s s).result
        = .ok none ∧ f.name ∈ x.unconverted) ∨
    ∃ a ∈ x.assignments, w.AssignsUp (w.head kind id) asked f a
  mapped : ∀ g ∈ x.oneofs, ∃ o ∈ (w.chain.message id).oneofs.map w.chain.oneof,
    w.MapsUp (w.head kind id) asked x.unconverted o g
  oneofs : ∀ o ∈ (w.chain.message id).oneofs.map w.chain.oneof,
    ∃ g ∈ x.oneofs, w.MapsUp (w.head kind id) asked x.unconverted o g
  checked : ∀ q ∈ x.required,
    (∃ f ∈ w.chain.plainFields id, f.receiveRequired ∧ w.ReceivesField (w.shape kind) f q) ∨
    ∃ o ∈ (w.chain.message id).oneofs.map w.chain.oneof,
      o.receiveRequired ∧ w.ReceivesOneof (w.shape kind) o q
  checksField : ∀ f ∈ w.chain.plainFields id, f.receiveRequired →
    ∃ q ∈ x.required, w.ReceivesField (w.shape kind) f q
  checksOneof : ∀ o ∈ (w.chain.message id).oneofs.map w.chain.oneof, o.receiveRequired →
    ∃ q ∈ x.required, w.ReceivesOneof (w.shape kind) o q

/-- A mapping stays one when more names are reported. -/
theorem MapsUp.mono {h : Head} {asked : List Request} {names names' : List String}
    {o : Oneof} {g : OneofMapping} (hg : w.MapsUp h asked names o g) (hsub : names ⊆ names') :
    w.MapsUp h asked names' o g :=
  { hg with variants := fun v hv => (hg.variants v hv).imp_right (Or.imp_left fun hn => hsub hn) }

/-- The checks of the parts of some members are those of the members for which a check is due. -/
theorem checks_of_parts {Member Part Check : Type} {R : Member → Part → Prop}
    {members : List Member} {parts : List Part} (h : List.Forall₂ R members parts)
    {check? : Part → Option Check} {due : Member → Bool} {Is : Member → Check → Prop}
    (hpart : ∀ m ∈ members, ∀ part, R m part →
      due m = false ∧ check? part = none ∨ due m = true ∧ ∃ q, check? part = some q ∧ Is m q) :
    (∀ q ∈ parts.filterMap check?, ∃ m ∈ members, due m ∧ Is m q) ∧
      ∀ m ∈ members, due m → ∃ q ∈ parts.filterMap check?, Is m q := by
  constructor
  · intro q hq
    obtain ⟨m, hm, part, hr, hcheck⟩ := exists_of_mem_filterMap h hq
    obtain ⟨-, hnone⟩ | ⟨hdue, q', hq', his⟩ := hpart m hm part hr
    · cases hnone.symm.trans hcheck
    · obtain rfl := Option.some.inj (hq'.symm.trans hcheck)
      exact ⟨m, hm, hdue, his⟩
  · intro m hm hdue
    obtain ⟨part, hmem, hr⟩ := forall₂_exists_right h hm
    obtain ⟨hnot, -⟩ | ⟨-, q, hq, his⟩ := hpart m hm part hr
    · rw [hnot] at hdue
      cases hdue
    · exact ⟨q, List.mem_filterMap.mpr ⟨part, hmem, hq⟩, his⟩

/-- **Converters that lead up**: every member of the message is written or unconverted, and checked
    if it must be received. -/
theorem messageConverter_up {kind : ConverterKind} {id : MessageId} {x : MessageConverter}
    (hok : (w.messageConverter kind id).result = .ok x) (hup : kind.isDown = false) :
    w.UpParts kind id x (w.messageConverter kind id).requests := by
  obtain ⟨fields, oneofs, h⟩ := messageConverter_parts hok
  obtain ⟨hfields, honeofs, haskedFields, haskedOneofs⟩ := h.upward hup
  obtain ⟨hfieldOfCheck, hcheckOfField⟩ := checks_of_parts hfields fun f hf part hresult =>
    (upField_cases hresult (haskedFields f hf)).1
  obtain ⟨honeofOfCheck, hcheckOfOneof⟩ := checks_of_parts honeofs fun o ho part hresult =>
    (upOneof_cases hresult (haskedOneofs o ho)).1
  constructor
  case assigned =>
    intro a ha
    rw [h.assignments] at ha
    obtain ⟨f, hf, part, hresult, hassignment⟩ := exists_of_mem_filterMap hfields ha
    exact ⟨f, hf, (upField_assigns hresult (haskedFields f hf) hassignment).2⟩
  case fields =>
    intro f hf
    rw [h.assignments, h.unconverted]
    obtain ⟨part, hpart, hresult⟩ := forall₂_exists_right hfields hf
    obtain ⟨-, ⟨s, hs, haction, -, hname⟩ | ⟨a, ha, hassigns⟩⟩ :=
      upField_cases hresult (haskedFields f hf)
    · exact .inl ⟨s, hs, haction,
        List.mem_append_left _ (List.mem_filterMap.mpr ⟨part, hpart, hname⟩)⟩
    · exact .inr ⟨a, List.mem_filterMap.mpr ⟨part, hpart, ha⟩, hassigns⟩
  case mapped =>
    intro g hg
    rw [h.mappings] at hg
    rw [h.unconverted]
    obtain ⟨part, hpart, hmapping⟩ := List.mem_filterMap.mp hg
    obtain ⟨o, ho, hresult⟩ := forall₂_exists_left honeofs hpart
    obtain ⟨-, g', hg', hmaps⟩ := upOneof_cases hresult (haskedOneofs o ho)
    obtain rfl := Option.some.inj (hg'.symm.trans hmapping)
    exact ⟨o, ho, hmaps.mono fun n hn =>
      List.mem_append_right _ (List.mem_flatMap.mpr ⟨part, hpart, hn⟩)⟩
  case oneofs =>
    intro o ho
    rw [h.mappings, h.unconverted]
    obtain ⟨part, hpart, hresult⟩ := forall₂_exists_right honeofs ho
    obtain ⟨-, g, hg, hmaps⟩ := upOneof_cases hresult (haskedOneofs o ho)
    exact ⟨g, List.mem_filterMap.mpr ⟨part, hpart, hg⟩, hmaps.mono fun n hn =>
      List.mem_append_right _ (List.mem_flatMap.mpr ⟨part, hpart, hn⟩)⟩
  case checked =>
    intro q hq
    rw [h.required] at hq
    obtain hq | hq := List.mem_append.mp hq
    · exact .inl (hfieldOfCheck q hq)
    · exact .inr (honeofOfCheck q hq)
  case checksField =>
    intro f hf hdue
    obtain ⟨q, hq, hreceives⟩ := hcheckOfField f hf hdue
    exact ⟨q, h.required ▸ List.mem_append_left _ hq, hreceives⟩
  case checksOneof =>
    intro o ho hdue
    obtain ⟨q, hq, hreceives⟩ := hcheckOfOneof o ho hdue
    exact ⟨q, h.required ▸ List.mem_append_right _ hq, hreceives⟩

/-- An assignment belongs to one of the plain fields, also by its position. -/
theorem assignment_cases {kind : ConverterKind} {id : MessageId} {x : MessageConverter}
    (hok : (w.messageConverter kind id).result = .ok x) {a : Assignment} (ha : a ∈ x.assignments) :
    ∃ f ∈ w.chain.plainFields id, a.field = f.id ∧
      (kind.isDown ∧ w.AssignsDown kind (w.messageConverter kind id).requests f a ∨
        kind.isDown = false ∧
          w.AssignsUp (w.head kind id) (w.messageConverter kind id).requests f a) := by
  obtain ⟨fields, oneofs, h⟩ := messageConverter_parts hok
  rw [h.assignments] at ha
  obtain ⟨f, hf, part, hresult, hassignment⟩ := exists_of_mem_filterMap h.eachField ha
  have hasked := h.askedFields f hf
  rw [shape_beq_down] at hresult hasked
  cases hdown : kind.isDown with
  | true =>
    rw [hdown] at hresult hasked
    obtain ⟨hfield, hassigns⟩ := downField_assigns hresult hasked hassignment
    exact ⟨f, hf, hfield, .inl ⟨rfl, hassigns⟩⟩
  | false =>
    rw [hdown] at hresult hasked
    obtain ⟨hfield, hassigns⟩ := upField_assigns hresult hasked hassignment
    exact ⟨f, hf, hfield, .inr ⟨rfl, hassigns⟩⟩

end View

end Lineage
