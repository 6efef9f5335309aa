import Lineage.Proofs.Chain.Coherent
import Lineage.Proofs.Plan.Generated
import Lineage.Proofs.Rule.Derive
import Mathlib.Data.List.Nodup

namespace Lineage

/-!
# Closed version plans

A version plan refers to validators and converters by name.

* `VersionPlan.Closed` — every name in a version plan resolves to what it is meant for,
* `Chain.Unambiguous` — what needs a validator belongs to the version and is the first one of its
  name, and no two types that are asked for have converters of one name,
* `Plan.closed_of_generate` — a version plan that is generated is closed exactly if its version is
  unambiguous.
-/

/-! ### What names are meant for -/

namespace VersionPlan

/-- A reference resolves to the converter for the type of a field. -/
def Resolves (c : Chain) (vp : VersionPlan) (ref : ConverterRef) (f : FieldId) : Prop :=
  ∃ x, vp.converter? ref.function = some x ∧
    View.subjectOf (c.field f).typeRef = some x.subject

/-- A name resolves to the validator of a message. -/
def Validates (vp : VersionPlan) (function : String) (m : MessageId) : Prop :=
  ∃ r, vp.validator? function = some r ∧ r.message = m

/-- A name resolves to the converter of a message. -/
def Converts (vp : VersionPlan) (function : String) (m : MessageId) : Prop :=
  ∃ x, vp.converter? function = some (.message x) ∧ x.message = m

/-- The validators that the methods and the validators of a version plan name are those of the
    messages that they check. -/
structure ClosedValidators (c : Chain) (vp : VersionPlan) : Prop where
  /-- The validator of a method is that of its request. -/
  validate : ∀ m ∈ vp.methods, vp.Validates m.validate m.input
  /-- A nested message is checked by its own validator. -/
  nested : ∀ r ∈ vp.validators, ∀ f ∈ r.fields, ∀ n, .nested n ∈ f.rules →
    vp.Validates (c.validatorOf n) n

/-- The converters that a method names are those of its request, of its response and of the
    deprecated fields that its request skips with. -/
structure ResolvesMethod (c : Chain) (vp : VersionPlan) (m : MethodPlan) : Prop where
  down : ∀ n, m.down = some n → vp.Converts n m.input
  up : ∀ n, m.up = some n → vp.Converts n m.output
  inputs : ∀ i ∈ m.deprecatedInputs, ∀ ref, i.action = .convert ref →
    ∃ f ∈ (c.message m.input).fields, (c.field f).name = i.field ∧ vp.Resolves c ref f

/-- The converters that the converter of a message names are those of the types of its fields. -/
structure ResolvesMessage (c : Chain) (vp : VersionPlan) (x : MessageConverter) : Prop where
  assignments : ∀ a ∈ x.assignments, ∀ ref, a.action = .convert ref → vp.Resolves c ref a.field
  arms : ∀ g ∈ x.oneofs, ∀ a ∈ g.arms, ∀ ref, a.action = .convert ref →
    ∃ f ∈ (c.oneof g.oneof).fields,
      (c.field f).name = a.publicName x.kind ∧ vp.Resolves c ref f

/-- The converters that the methods and the converters of a version plan name are those of the types
    that they convert. -/
structure ClosedConverters (c : Chain) (vp : VersionPlan) : Prop where
  methods : ∀ m ∈ vp.methods, vp.ResolvesMethod c m
  messages : ∀ n x, (n, .message x) ∈ vp.converters → vp.ResolvesMessage c x

/-- Every name in a version plan resolves to what it is meant for. -/
structure Closed (c : Chain) (vp : VersionPlan) : Prop where
  validators : vp.ClosedValidators c
  converters : vp.ClosedConverters c

/-- A name that converts a message is that of a converter for it. -/
theorem converts_iff {vp : VersionPlan} {function : String} {m : MessageId} :
    vp.Converts function m ↔ ∃ x, vp.converter? function = some x ∧ x.subject = .message m := by
  constructor
  · rintro ⟨x, hx, rfl⟩
    exact ⟨.message x, hx, rfl⟩
  · rintro ⟨x, hx, hsubject⟩
    cases x with
    | message x => exact ⟨x, hx, Subject.message.inj hsubject⟩
    | enumeration x => cases hsubject

/-! ### Evaluation -/

section
variable {c : Chain} {vp : VersionPlan}

instance {P : ConverterRef → Prop} [DecidablePred P] :
    (a : Action) → Decidable (∀ ref, a = .convert ref → P ref)
  | .copy => .isTrue nofun
  | .convert ref => decidable_of_iff (P ref) (by simp)

instance {P : MessageConverter → Prop} [DecidablePred P] :
    (x : Converter) → Decidable (∀ y, x = .message y → P y)
  | .message y => decidable_of_iff (P y) (by simp)
  | .enumeration _ => .isTrue nofun

instance {P : MessageId → Prop} [DecidablePred P] :
    (r : Rule) → Decidable (∀ n, r = .nested n → P n)
  | .nested n => decidable_of_iff (P n) (by simp)
  | .required | .format _ | .oneOf _ | .range _ _ | .length _ _ => .isTrue nofun

instance (ref : ConverterRef) (f : FieldId) : Decidable (vp.Resolves c ref f) :=
  decidable_of_iff ((vp.converter? ref.function).any fun x =>
    decide (View.subjectOf (c.field f).typeRef = some x.subject))
      (by simp [Resolves, Option.any_eq_true])

instance (function : String) (m : MessageId) : Decidable (vp.Validates function m) :=
  decidable_of_iff ((vp.validator? function).any fun r => decide (r.message = m))
    (by simp [Validates, Option.any_eq_true])

instance (function : String) (m : MessageId) : Decidable (vp.Converts function m) :=
  decidable_of_iff ((vp.converter? function).any fun x => decide (x.subject = .message m))
    (by simp [converts_iff, Option.any_eq_true])

instance (m : MethodPlan) : Decidable (vp.ResolvesMethod c m) :=
  decidable_of_iff ((∀ n ∈ m.down, vp.Converts n m.input) ∧ (∀ n ∈ m.up, vp.Converts n m.output) ∧
      ∀ i ∈ m.deprecatedInputs, ∀ ref, i.action = .convert ref →
        ∃ f ∈ (c.message m.input).fields, (c.field f).name = i.field ∧ vp.Resolves c ref f)
    ⟨fun h => ⟨h.1, h.2.1, h.2.2⟩, fun h => ⟨h.down, h.up, h.inputs⟩⟩

instance (x : MessageConverter) : Decidable (vp.ResolvesMessage c x) :=
  decidable_of_iff ((∀ a ∈ x.assignments, ∀ ref, a.action = .convert ref →
        vp.Resolves c ref a.field) ∧
      ∀ g ∈ x.oneofs, ∀ a ∈ g.arms, ∀ ref, a.action = .convert ref →
        ∃ f ∈ (c.oneof g.oneof).fields,
          (c.field f).name = a.publicName x.kind ∧ vp.Resolves c ref f)
    ⟨fun h => ⟨h.1, h.2⟩, fun h => ⟨h.assignments, h.arms⟩⟩

instance : Decidable (vp.ClosedConverters c) :=
  decidable_of_iff ((∀ m ∈ vp.methods, vp.ResolvesMethod c m) ∧
      ∀ e ∈ vp.converters, ∀ x, e.2 = .message x → vp.ResolvesMessage c x)
    ⟨fun h => ⟨h.1, fun n x hx => h.2 (n, .message x) hx x rfl⟩,
      fun h => ⟨h.methods, fun e he x hx => h.messages e.1 x (hx ▸ he)⟩⟩

instance : Decidable (vp.ClosedValidators c) :=
  decidable_of_iff ((∀ m ∈ vp.methods, vp.Validates m.validate m.input) ∧
      ∀ r ∈ vp.validators, ∀ f ∈ r.fields, ∀ rule ∈ f.rules, ∀ n, rule = .nested n →
        vp.Validates (c.validatorOf n) n)
    ⟨fun h => ⟨h.1, fun r hr f hf n hn => h.2 r hr f hf (.nested n) hn n rfl⟩,
      fun h => ⟨h.validate, fun r hr f hf _ hrule n hn => h.nested r hr f hf n (hn ▸ hrule)⟩⟩

instance : Decidable (vp.Closed c) :=
  decidable_of_iff (vp.ClosedValidators c ∧ vp.ClosedConverters c)
    ⟨fun h => ⟨h.1, h.2⟩, fun h => ⟨h.validators, h.converters⟩⟩

end

end VersionPlan

/-! ### What makes names resolve -/

/-- Converters of one name that are asked for are for one type. -/
def View.Unambiguous (w : View) (Root : Request → Prop) : Prop :=
  ∀ r q, w.Asked Root r → w.Asked Root q → w.nameOf r = w.nameOf q → r.subject = q.subject

namespace Chain

variable {c : Chain} {v : VersionId} {vp : VersionPlan}

/-- The messages of a version that get a validator. -/
def validatedOf (c : Chain) (v : VersionId) : List MessageId :=
  (c.version v).messages.filter (c.validated c.demanding).contains

/-- The messages whose validators the validators and methods of a version name. -/
inductive NeedsValidator (c : Chain) (v : VersionId) : MessageId → Prop
  | request {m : MethodId} (hm : m ∈ (c.version v).methods) :
    NeedsValidator c v (c.method m).input
  | nested {m n : MessageId} (hm : m ∈ c.validatedOf v)
    (hn : n ∈ c.nestedMessages (c.message m)) (hd : c.demanding.contains n) :
    NeedsValidator c v n

/-- What needs a validator belongs to the version and is the first one of its name that gets one. -/
def UnambiguousValidators (c : Chain) (v : VersionId) : Prop :=
  ∀ n, c.NeedsValidator v n → n ∈ (c.version v).messages ∧
    ∀ m ∈ c.validatedOf v, m.index < n.index → c.validatorOf m ≠ c.validatorOf n

/-- No name of a version is ambiguous; the private version has no converters. -/
structure Unambiguous (c : Chain) (v : VersionId) : Prop where
  validators : c.UnambiguousValidators v
  converters : (c.version v).isPrivate = false →
    (c.viewOf (c.version v)).Unambiguous (c.AsksFor (c.version v))

/-- The fields of each message have different names. -/
def UniqueFields (c : Chain) : Prop :=
  ∀ m ∈ c.messages, (m.fields.map fun f => (c.field f).name).Nodup

instance : Decidable c.UniqueFields := inferInstanceAs (Decidable (∀ m ∈ c.messages, _))

/-- The fields of a message have different names. -/
theorem UniqueFields.nodup (h : c.UniqueFields) (m : MessageId) :
    ((c.message m).fields.map fun f => (c.field f).name).Nodup :=
  forall_getD (d := default) h List.nodup_nil m.index

/-- Fields of a message with one name are the same. -/
theorem UniqueFields.eq {m : MessageId} {f g : FieldId} (h : c.UniqueFields)
    (hf : f ∈ (c.message m).fields) (hg : g ∈ (c.message m).fields)
    (hname : (c.field f).name = (c.field g).name) : f = g :=
  List.inj_on_of_nodup_map (h.nodup m) hf hg hname

/-- Variants of a oneof with one name are the same. -/
theorem UniqueFields.variant_eq (h : c.UniqueFields) (hwf : c.WellFormed) {o : OneofId}
    {f g : FieldId} (hf : f ∈ (c.oneof o).fields) (hg : g ∈ (c.oneof o).fields)
    (hname : (c.field f).name = (c.field g).name) : f = g := by
  have hmem : ∀ x ∈ (c.oneof o).fields, x ∈ (c.message (c.oneof o).message).fields := by
    intro x hx
    obtain ⟨hlt, hx⟩ := (hwf.mem_variants o x).mp hx
    exact (hwf.mem_fields _ x).mpr ⟨hlt, (hwf.oneof_message_eq hlt hx).symm⟩
  exact h.eq (hmem f hf) (hmem g hg) hname

/-! ### Validators -/

/-- The first validator of a name is that of a message exactly if the message has one and no message
    before it has one of this name. -/
theorem find?_validator {ms : List MessageId} {rules : List MessageRules}
    (h : List.Forall₂ (Rule.Derivation.ofChain c).ValidatorFor ms rules)
    (hsorted : ms.Pairwise fun a b => a.index < b.index) (n : MessageId) :
    (∃ r, rules.find? (·.function == c.validatorOf n) = some r ∧ r.message = n) ↔
      n ∈ ms ∧ ∀ m ∈ ms, m.index < n.index → c.validatorOf m ≠ c.validatorOf n := by
  induction h with
  | nil => simp
  | @cons m r ms rules hr _ ih =>
    obtain ⟨hfirst, hrest⟩ := List.pairwise_cons.mp hsorted
    have hfunction : r.function = c.validatorOf m := hr.function
    rw [List.find?_cons, hfunction]
    by_cases hname : c.validatorOf m = c.validatorOf n
    · -- the first one has the name
      rw [hname, beq_self_eq_true]
      constructor
      · rintro ⟨_, ⟨⟩, rfl⟩
        rw [hr.message]
        refine ⟨List.mem_cons_self, fun x hx hlt => ?_⟩
        obtain rfl | hx := List.mem_cons.mp hx
        · exact absurd hlt (Nat.lt_irrefl _)
        · exact absurd hlt (Nat.lt_asymm (hfirst x hx))
      · rintro ⟨hn, hbefore⟩
        obtain rfl | hn := List.mem_cons.mp hn
        · exact ⟨r, rfl, hr.message⟩
        · exact absurd hname (hbefore m List.mem_cons_self (hfirst n hn))
    · rw [beq_eq_false_iff_ne.mpr hname, ih hrest, List.mem_cons, List.forall_mem_cons]
      constructor
      · exact fun ⟨hn, hbefore⟩ => ⟨.inr hn, fun _ => hname, hbefore⟩
      · rintro ⟨rfl | hn, -, hbefore⟩
        · exact absurd rfl hname
        · exact ⟨hn, hbefore⟩

/-- What needs a validator gets one, if it belongs to the version. -/
theorem NeedsValidator.validated {count : Nat} (h : c.Framed count) {n : MessageId}
    (hn : c.NeedsValidator v n) (hmem : n ∈ (c.version v).messages) : n ∈ c.validatedOf v := by
  have hwf := h.wellFormed
  refine List.mem_filter.mpr ⟨hmem, ?_⟩
  obtain ⟨hlt, -⟩ := (hwf.mem_messages v n).mp hmem
  cases hn with
  | request hm =>
    obtain ⟨hm, -⟩ := (hwf.mem_methods v _).mp hm
    have hmarked := h.requests _ (Array.mem_of_getElem? (getElem?_eq_some_getD hm default))
    exact validated_of_isRoot hlt (Bool.or_eq_true_iff.mpr (.inl hmarked))
  | nested hm hnested hd =>
    obtain ⟨hmem, hvalidated⟩ := List.mem_filter.mp hm
    obtain ⟨hm, -⟩ := (hwf.mem_messages v _).mp hmem
    exact validated_nested hwf hm hvalidated hnested hd hlt

/-- What needs a validator has one under its name exactly if it belongs to the version and is the
    first one of its name. -/
theorem NeedsValidator.validates_iff {count : Nat} (h : c.Framed count)
    (hrules : (Rule.Derivation.ofChain c).versionRules v = .ok vp.validators) {n : MessageId}
    (hn : c.NeedsValidator v n) :
    vp.Validates (c.validatorOf n) n ↔ n ∈ (c.version v).messages ∧
      ∀ m ∈ c.validatedOf v, m.index < n.index → c.validatorOf m ≠ c.validatorOf n := by
  have hsorted := (h.wellFormed.pairwise_messages v).filter (c.validated c.demanding).contains
  have hfind := find?_validator (Rule.Derivation.versionRules_eq_ok hrules) hsorted n
  have hmem : n ∈ c.validatedOf v ↔ n ∈ (c.version v).messages :=
    ⟨fun hvalidated => (List.mem_filter.mp hvalidated).1, hn.validated h⟩
  rw [← hmem]
  exact hfind

/-- A method is planned with the validator of what it takes. -/
theorem PlannedAs.validate_eq {v : Version} {m : MethodId} {mp : MethodPlan}
    (h : c.PlannedAs v m mp) :
    mp.input = (c.method m).input ∧ mp.validate = c.validatorOf (c.method m).input := by
  obtain ⟨-, rfl⟩ | ⟨-, hplan⟩ := h
  · exact ⟨rfl, rfl⟩
  · obtain ⟨t, -, -, rfl⟩ := hplan.exists_target
    exact ⟨rfl, rfl⟩

/-- The validators that a version plan names are those that are needed. -/
theorem closedValidators_iff
    (hrules : (Rule.Derivation.ofChain c).versionRules v = .ok vp.validators)
    (hmethods : List.Forall₂ (c.PlannedAs (c.version v)) (c.version v).methods vp.methods) :
    vp.ClosedValidators c ↔ ∀ n, c.NeedsValidator v n → vp.Validates (c.validatorOf n) n := by
  have hall := Rule.Derivation.versionRules_eq_ok hrules
  constructor
  · intro h n hn
    -- a validator is needed for a request, or for what a validated message contains
    cases hn with
    | request hm =>
      obtain ⟨mp, hmp, hplan⟩ := forall₂_exists_right hmethods hm
      obtain ⟨hinput, hvalidate⟩ := hplan.validate_eq
      rw [← hvalidate, ← hinput]
      exact h.validate mp hmp
    | nested hm hnested hd =>
      obtain ⟨r, hr, hfor⟩ := forall₂_exists_right hall hm
      obtain ⟨f, hf, hrule⟩ := (hfor.nested n).mpr ⟨hnested, hd⟩
      exact h.nested r hr f hf n hrule
  · intro h
    constructor
    case validate =>
      intro mp hmp
      obtain ⟨m, hm, hplan⟩ := forall₂_exists_left hmethods hmp
      obtain ⟨hinput, hvalidate⟩ := hplan.validate_eq
      rw [hvalidate, hinput]
      exact h _ (.request hm)
    case nested =>
      intro r hr f hf n hrule
      obtain ⟨m, hm, hfor⟩ := forall₂_exists_left hall hr
      obtain ⟨hnested, hd⟩ := (hfor.nested n).mp ⟨f, hf, hrule⟩
      exact h n (.nested hm hnested hd)

/-- **Validators.** The validators of a version plan are closed exactly if its validators are
    unambiguous. -/
theorem closedValidators_iff_unambiguous {count : Nat} (h : c.Framed count)
    (hrules : (Rule.Derivation.ofChain c).versionRules v = .ok vp.validators)
    (hmethods : List.Forall₂ (c.PlannedAs (c.version v)) (c.version v).methods vp.methods) :
    vp.ClosedValidators c ↔ c.UnambiguousValidators v := by
  rw [closedValidators_iff hrules hmethods]
  exact forall_congr' fun n => imp_congr_right fun hn => hn.validates_iff h hrules

end Chain

/-! ### Converters -/

/-- The converter found under the name of a request is for the requested type. -/
def VersionPlan.Serves (vp : VersionPlan) (w : View) (r : Request) : Prop :=
  ∃ x, vp.converter? (w.nameOf r) = some x ∧ x.subject = r.subject

/-- The kind of a converter shows in its name. -/
theorem ConverterKind.eq_of_functionName {kind kind' : ConverterKind} {s s' : String}
    (h : kind.functionName s = kind'.functionName s') : kind = kind' := by
  have hprefix := congrArg (fun name => name.toList.take 4) h
  cases kind <;> cases kind' <;>
    first | rfl | simp [functionName, name, String.toList_append] at hprefix

namespace View

variable {w : View} {vp : VersionPlan}

/-- A request is known by its name and type. -/
theorem request_eq {r q : Request} (hname : w.nameOf r = w.nameOf q) (hs : r.subject = q.subject) :
    r = q := by
  obtain ⟨kind, s⟩ := r
  obtain ⟨kind', s'⟩ := q
  obtain rfl : s = s' := hs
  obtain rfl : kind = kind' := ConverterKind.eq_of_functionName hname
  rfl

/-- The conversion of a field resolves exactly if what it asks for is found under its name. -/
theorem Refers.resolves_iff {f : FieldId} {action : Action} {asked : List Request}
    (h : w.Refers f action asked) :
    (∀ ref, action = .convert ref → vp.Resolves w.chain ref f) ↔ ∀ q ∈ asked, vp.Serves w q := by
  cases h with
  | copy => simp
  | convert kind hs =>
    simp only [Action.convert.injEq, forall_eq', List.forall_mem_singleton]
    unfold VersionPlan.Resolves VersionPlan.Serves
    rw [hs]
    exact exists_congr fun x =>
      and_congr_right' ⟨fun h => (Option.some.inj h).symm, fun h => h ▸ rfl⟩

/-- A request for a message is served by a converter of its name for that message. -/
theorem serves_message {kind : ConverterKind} {m : MessageId} :
    vp.Serves w (w.request kind (.message m)) ↔
      vp.Converts (w.nameOf (w.request kind (.message m))) m :=
  VersionPlan.converts_iff.symm

/-! ### Fields of a message converter -/

section
variable {k : ConverterKind} {id : MessageId} {x : MessageConverter} {asked : List Request}

/-- A message converter is resolved if what it asks for is served. -/
theorem MessageFor.resolves (h : w.MessageFor k id x asked) (hwf : w.chain.WellFormed)
    (hs : ∀ q ∈ asked, vp.Serves w q) : vp.ResolvesMessage w.chain x := by
  constructor
  case assignments =>
    intro a ha
    obtain ⟨f, -, own, hsub, hfield, hrefers⟩ := h.assignments a ha
    rw [hfield]
    exact hrefers.resolves_iff.mpr fun q hq => hs q (hsub hq)
  case arms =>
    intro g hg a ha ref href
    obtain ⟨_, honeof, own, hsub, hmapping⟩ := h.oneofs g hg
    obtain ⟨o, ho, rfl⟩ := List.mem_map.mp honeof
    obtain ⟨_, hvariant, arm, hsub', hname, hrefers⟩ := hmapping.arms a ha
    obtain ⟨f, hf, rfl⟩ := List.mem_map.mp hvariant
    rw [hmapping.oneof, hwf.oneof_id ((hwf.mem_oneofs id o).mp ho).1, h.kind, hname]
    rw [hwf.field_id ((hwf.mem_variants o f).mp hf).1] at hrefers
    exact ⟨f, hf, rfl, hrefers.resolves_iff.mpr (fun q hq => hs q (hsub (hsub' hq))) ref href⟩

/-- What a message converter asks for is served if it is resolved. -/
theorem MessageFor.serves (h : w.MessageFor k id x asked) (hwf : w.chain.WellFormed)
    (hfields : w.chain.UniqueFields) (hx : vp.ResolvesMessage w.chain x) :
    ∀ q ∈ asked, vp.Serves w q := by
  intro q hq
  obtain ⟨f, -, a, ha, own, hq, hfield, hrefers⟩ | ⟨_, honeof, g, hg, own, hq, hmapping⟩ :=
    h.asked q hq
  · have hresolves := hx.assignments a ha
    rw [hfield] at hresolves
    exact hrefers.resolves_iff.mp hresolves q hq
  · obtain ⟨o, ho, rfl⟩ := List.mem_map.mp honeof
    obtain ⟨_, hvariant, a, ha, arm, hq, hname, hrefers⟩ := hmapping.asked q hq
    obtain ⟨f, hf, rfl⟩ := List.mem_map.mp hvariant
    rw [hwf.field_id ((hwf.mem_variants o f).mp hf).1] at hrefers
    refine hrefers.resolves_iff.mp (fun ref href => ?_) q hq
    obtain ⟨f', hf', hname', hresolves⟩ := hx.arms g hg a ha ref href
    rw [hmapping.oneof, hwf.oneof_id ((hwf.mem_oneofs id o).mp ho).1] at hf'
    rw [h.kind, hname] at hname'
    exact hfields.variant_eq hwf hf' hf hname' ▸ hresolves

end

/-! ### Converters of a method -/

section
variable {m : Method} {mp : MethodPlan}

/-- A method is resolved if what it asks for is served. -/
theorem Planned.resolves (h : w.Planned m mp) (hwf : w.chain.WellFormed)
    (hs : ∀ q ∈ w.requestsOf m, vp.Serves w q) : vp.ResolvesMethod w.chain mp := by
  obtain ⟨t, -, -, rfl⟩ := h.exists_target
  simp only [requestsOf, List.mem_append, List.mem_singleton, List.mem_flatMap, or_assoc] at hs
  constructor
  case down =>
    rintro n ⟨⟩
    exact serves_message.mp (hs _ (.inl rfl))
  case up =>
    rintro n ⟨⟩
    exact serves_message.mp (hs _ (.inr (.inl rfl)))
  case inputs =>
    intro i hi ref href
    obtain ⟨x, hx, hinput⟩ := mem_deprecatedInputs hi
    obtain ⟨hname, -, hresult⟩ := inputOf_eq_some hinput
    obtain ⟨f, hf, hfield, -⟩ := mem_deprecatedFields (mem_skipping hx)
    obtain ⟨⟨⟩, -⟩ | ⟨action, haction, hrefers⟩ := action_result hresult
    obtain rfl := Option.some.inj haction
    refine ⟨f, hf, by rw [hname, hfield], ?_⟩
    rw [hfield, hwf.field_id ((hwf.mem_fields _ f).mp hf).1] at hrefers
    refine hrefers.resolves_iff.mpr (fun q hq => hs q (.inr (.inr ⟨x, hx, ?_⟩))) ref href
    rwa [hfield, hwf.field_id ((hwf.mem_fields _ f).mp hf).1]

/-- What a method asks for is served if it is resolved. -/
theorem Planned.serves (h : w.Planned m mp) (hwf : w.chain.WellFormed)
    (hfields : w.chain.UniqueFields) (hm : vp.ResolvesMethod w.chain mp) :
    ∀ q ∈ w.requestsOf m, vp.Serves w q := by
  obtain ⟨t, -, -, rfl⟩ := h.exists_target
  intro q hq
  simp only [requestsOf, List.mem_append, List.mem_singleton, List.mem_flatMap, or_assoc] at hq
  obtain rfl | rfl | ⟨x, hx, hq⟩ := hq
  · exact serves_message.mpr (hm.down _ rfl)
  · exact serves_message.mpr (hm.up _ rfl)
  · obtain ⟨a, hresult⟩ := h.actions x hx
    obtain ⟨f, hf, hfield, -⟩ := mem_deprecatedFields (mem_skipping hx)
    obtain ⟨-, hnone⟩ | ⟨action, rfl, hrefers⟩ := action_result hresult
    · rw [hnone] at hq
      cases hq
    · rw [hfield, hwf.field_id ((hwf.mem_fields _ f).mp hf).1] at hrefers hq
      -- the field of a deprecated input is the one of its name
      refine hrefers.resolves_iff.mp (fun ref href => ?_) q hq
      obtain ⟨f', hf', hname', hresolves⟩ := hm.inputs
        { field := x.1.name, privateField := (w.chain.field x.2).name
          setter := setterName (w.chain.field x.2).name, repeated := x.1.repeated, action }
        (List.mem_filterMap.mpr ⟨x, hx, by rw [inputOf, hresult]⟩) ref href
      exact hfields.eq hf' hf (by rw [hname', hfield]) ▸ hresolves

end

/-! ### Converters of a version plan -/

/-- What methods ask for, and what converters of a version plan ask for. -/
def Names (w : View) (Root : Request → Prop) (vp : VersionPlan) (q : Request) : Prop :=
  Root q ∨ ∃ n x, (n, x) ∈ vp.converters ∧ q ∈ (w.converter x.request).requests

section
variable {Root : Request → Prop} {p₀ p : Planner} {asked : List Request}
  (h : Planner.Answered w Root p₀ asked p) (hconverters : vp.converters = p.converters)
include h hconverters

/-- Everything asked for is found under its name if it is found wherever it is named. -/
theorem serves_of_names (hnames : ∀ q, w.Names Root vp q → vp.Serves w q) {r : Request}
    (hr : w.Asked Root r) : vp.Serves w r := by
  induction hr with
  | root hr => exact hnames _ (.inl hr)
  | nested _ hq ih =>
    obtain ⟨x, hx, hsubject⟩ := ih
    have hmem := Sorted.mem_of_get? hx
    rw [hconverters] at hmem
    obtain ⟨table, -, hname, -⟩ := h.tracked.specified hmem
    -- the converter is that of the request itself, not only of one with the same name
    obtain rfl := request_eq hname hsubject
    exact hnames _ (.inr ⟨_, x, Sorted.mem_of_get? hx, hq⟩)

/-- **Converters by name.** Whatever is named is found, for the requested type, exactly if no name
    is ambiguous. -/
theorem serves_iff_unambiguous (hroot : ∀ q, Root q → w.nameOf q ∈ p.queued) :
    (∀ q, w.Names Root vp q → vp.Serves w q) ↔ w.Unambiguous Root := by
  constructor
  · intro hnames r q hr hq hname
    obtain ⟨x, hx, hsubject⟩ := serves_of_names h hconverters hnames hr
    obtain ⟨y, hy, hsubject'⟩ := serves_of_names h hconverters hnames hq
    rw [hname] at hx
    -- one name finds one converter, which is for one subject
    obtain rfl := Option.some.inj (hx.symm.trans hy)
    rw [← hsubject, hsubject']
  · intro hun q hq
    obtain ⟨hasked, hqueued⟩ : w.Asked Root q ∧ w.nameOf q ∈ p.queued := by
      obtain hq | ⟨n, x, hx, hq⟩ := hq
      · exact ⟨.root hq, hroot q hq⟩
      · rw [hconverters] at hx
        obtain ⟨-, hr, -, -, hqueued⟩ := h.tracked.specified hx
        exact ⟨.nested hr hq, hqueued q hq⟩
    obtain ⟨x, hx⟩ := h.get? hqueued
    obtain ⟨-, hr, hname, -⟩ := h.tracked.specified (Sorted.mem_of_get? hx)
    refine ⟨x, ?_, hun _ _ hr hasked hname⟩
    rw [VersionPlan.converter?, hconverters, hx]

end

end View

namespace Chain

section
variable {c : Chain} {v : Version} {vp : VersionPlan} {p₀ p : Planner} {asked : List Request}
  (hplanned : List.Forall₂ (fun m mp => (c.viewOf v).Planned (c.method m) mp) v.methods vp.methods)
  (h : Planner.Answered (c.viewOf v) (c.AsksFor v) p₀ asked p)
  (hconverters : vp.converters = p.converters)
include hplanned h hconverters

/-- A plan is closed if all that its names stand for is served. -/
theorem closedConverters_of_serves (hwf : c.WellFormed)
    (hs : ∀ q, (c.viewOf v).Names (c.AsksFor v) vp q → vp.Serves (c.viewOf v) q) :
    vp.ClosedConverters c := by
  constructor
  case methods =>
    intro mp hmp
    obtain ⟨m, hm, hplan⟩ := forall₂_exists_left hplanned hmp
    exact hplan.resolves hwf fun q hq => hs q (.inl ⟨m, hm, hq⟩)
  case messages =>
    intro n x hx
    have hmem := hconverters ▸ hx
    obtain ⟨table, -, -, hok, -⟩ := h.tracked.specified hmem
    obtain ⟨-, hfor⟩ := View.converter_message hok
    exact hfor.resolves hwf fun q hq => hs q (.inr ⟨n, _, hx, hq⟩)

/-- All that the names of a closed plan stand for is served. -/
theorem serves_of_closedConverters (hwf : c.WellFormed) (hfields : c.UniqueFields)
    (hclosed : vp.ClosedConverters c) {q : Request}
    (hq : (c.viewOf v).Names (c.AsksFor v) vp q) : vp.Serves (c.viewOf v) q := by
  obtain ⟨m, hm, hq⟩ | ⟨n, x, hx, hq⟩ := hq
  · obtain ⟨mp, hmp, hplan⟩ := forall₂_exists_right hplanned hm
    exact hplan.serves hwf hfields (hclosed.methods mp hmp) q hq
  · have hmem := hconverters ▸ hx
    obtain ⟨table, -, -, hok, -⟩ := h.tracked.specified hmem
    cases x with
    | message x =>
      obtain ⟨-, hfor⟩ := View.converter_message hok
      exact hfor.serves hwf hfields (hclosed.messages n x hx) q hq
    | enumeration x =>
      rw [View.converter_enumeration hok] at hq
      cases hq

end

end Chain

/-! ### Generated plans -/

namespace Plan

variable {plan : Plan} {vp : VersionPlan}

/-- The plan of a public version has closed converters exactly if its converters are unambiguous. -/
theorem closedConverters_public {c : Chain} (hwf : c.WellFormed) {v : Version}
    (hok : versionPlan (.ofChain c) v = .ok vp) (hpublic : v.isPrivate = false) :
    ((c.viewOf v).Unambiguous (c.AsksFor v) → vp.ClosedConverters c) ∧
      (c.UniqueFields → vp.ClosedConverters c → (c.viewOf v).Unambiguous (c.AsksFor v)) := by
  obtain ⟨hplanned, -, p, hanswered, hconverters⟩ := versionPlan_public hok hpublic
  have hroot : ∀ q, c.AsksFor v q → (c.viewOf v).nameOf q ∈ p.queued := by
    rintro q ⟨m, hm, hq⟩
    exact hanswered.queued q (List.mem_flatMap.mpr ⟨_, List.mem_map_of_mem hm, hq⟩)
  have hserves := View.serves_iff_unambiguous hanswered hconverters hroot
  constructor
  · intro hun
    exact Chain.closedConverters_of_serves hplanned hanswered hconverters hwf (hserves.mpr hun)
  · intro hfields hclosed
    exact hserves.mp fun q =>
      Chain.serves_of_closedConverters hplanned hanswered hconverters hwf hfields hclosed

/-- The plan of the private version names no converters. -/
theorem closedConverters_private {c : Chain} {v : Version}
    (hok : versionPlan (.ofChain c) v = .ok vp) (hprivate : v.isPrivate) :
    vp.ClosedConverters c := by
  obtain ⟨hmethods, hconverters, -⟩ := versionPlan_private hok hprivate
  constructor
  case methods =>
    intro mp hmp
    rw [hmethods] at hmp
    obtain ⟨m, -, rfl⟩ := List.mem_map.mp hmp
    constructor
    · rintro n ⟨⟩
    · rintro n ⟨⟩
    · rintro i ⟨⟩
  case messages =>
    intro n x hx
    rw [hconverters] at hx
    cases hx

/-- **Closed version plans.** Every name in a generated version plan resolves to what it is meant
    for, if no name of its version is ambiguous, and only then. -/
theorem closed_of_generate {set : DescriptorSet} {config : Config}
    (h : generate set config = .ok plan) (hvp : vp ∈ plan.versions) :
    (plan.chain.Unambiguous vp.version → vp.Closed plan.chain) ∧
      (plan.chain.UniqueFields → vp.Closed plan.chain → plan.chain.Unambiguous vp.version) := by
  have hplan := generated_of_generate h
  have hframed := hplan.linked.framed
  obtain ⟨k, hk⟩ := List.mem_iff_getElem?.mp hvp
  obtain ⟨hlt, hok⟩ := hplan.getElem?_eq_some hk
  obtain ⟨hfor, -⟩ := versionPlan_eq_ok hok
  have hid : vp.version = ⟨k⟩ := hfor.version.trans (hframed.version_id hlt)
  have hrules := hfor.validators
  rw [hframed.version_id hlt] at hrules
  have hvalidators :=
    Chain.closedValidators_iff_unambiguous hframed hrules (Chain.plannedAs_of_versionPlan hok)
  rw [hid]
  -- the private version has no converters whose names could be ambiguous
  cases hprivate : (plan.chain.version ⟨k⟩).isPrivate with
  | false =>
    obtain ⟨hclosed, hun⟩ := closedConverters_public hframed.wellFormed hok hprivate
    constructor
    · exact fun hu => ⟨hvalidators.mpr hu.validators, hclosed (hu.converters hprivate)⟩
    · exact fun hfields hc =>
        ⟨hvalidators.mp hc.validators, fun _ => hun hfields hc.converters⟩
  | true =>
    constructor
    · exact fun hu => ⟨hvalidators.mpr hu.validators, closedConverters_private hok hprivate⟩
    · refine fun _ hc => ⟨hvalidators.mp hc.validators, fun hpublic => ?_⟩
      rw [hprivate] at hpublic
      cases hpublic

/-- A package in which requests have parts and parts are in groups, which have parts again.  What a
    part is named is validated, and so each of them is. -/
def partsFile (package : String) : FileDescriptor :=
  let field (name type typeName : String) : FieldDescriptor :=
    { name, number := some 1, type, typeName := some (package ++ "." ++ typeName) }
  { name := package ++ ".proto"
    package
    messages := [
      { name := "Request", fields := [field "part" "TYPE_MESSAGE" "Part"] },
      { name := "Part"
        fields := [{ name := "name", number := some 1, type := "TYPE_STRING" },
          { field "group" "TYPE_MESSAGE" "Group" with number := some 2 }] },
      { name := "Group"
        fields := [{ field "parts" "TYPE_MESSAGE" "Part" with label := some "LABEL_REPEATED" }] },
      { name := "Response" }]
    services := [{
      name := "Service"
      methods := [{ name := "Get", inputType := package ++ ".Request"
                    outputType := package ++ ".Response" }] }]
    locations := some [{ path := [4, 1, 2, 0], leading := some "gen:svc validate max=8" }] }

/-- A public and the private version, both with parts and groups. -/
def partsSet : DescriptorSet := { files := ["v1", "private"].map partsFile }

set_option maxRecDepth 10000 in
/-- The plan of the first version of the sample, in which the validators of requests, of parts and
    of groups call each other. -/
theorem closed_sample : ∃ plan vp, generate partsSet {} = .ok plan ∧ vp ∈ plan.versions ∧
    vp.package = "v1" ∧
    (∀ n ∈ ([⟨1⟩, ⟨2⟩] : List MessageId), ∃ r ∈ vp.validators, ∃ f ∈ r.fields,
      Rule.nested n ∈ f.rules) ∧
    vp.Closed plan.chain ∧ plan.chain.Unambiguous vp.version := by
  have hok : (generate partsSet {}).toOption.any (fun plan =>
      decide plan.chain.UniqueFields && plan.versions.any fun vp =>
        vp.package == "v1" &&
        decide (∀ n ∈ ([⟨1⟩, ⟨2⟩] : List MessageId), ∃ r ∈ vp.validators, ∃ f ∈ r.fields,
          Rule.nested n ∈ f.rules) &&
        decide (vp.Closed plan.chain)) = true := by decide +kernel
  obtain ⟨plan, hplan, hchecked⟩ := exists_of_toOption_any hok
  simp only [Bool.and_eq_true, decide_eq_true_eq, List.any_eq_true, beq_iff_eq] at hchecked
  obtain ⟨hfields, vp, hvp, ⟨hpackage, hnested⟩, hclosed⟩ := hchecked
  exact ⟨plan, vp, hplan, hvp, hpackage, hnested, hclosed,
    (closed_of_generate hplan hvp).2 hfields hclosed⟩

/-- A package with two requests whose validators have one name, and so their converters. -/
def clashingFile (package : String) : FileDescriptor :=
  { name := package ++ ".proto"
    package
    messages := [
      { name := "Box", nested := [{ name := "Request" }] },
      { name := "Box_Request" },
      { name := "Response" }]
    services := [{
      name := "Service"
      methods := [
        { name := "Get", inputType := package ++ ".Box.Request"
          outputType := package ++ ".Response" },
        { name := "Put", inputType := package ++ ".Box_Request"
          outputType := package ++ ".Response" }] }] }

/-- A public and the private version, both with the two requests. -/
def clashingSet : DescriptorSet := { files := ["v1", "private"].map clashingFile }

set_option maxRecDepth 10000 in
/-- **Names can clash.** A plan is generated although a name in it resolves to something else. -/
theorem not_closed_clashing : ∃ plan vp, generate clashingSet {} = .ok plan ∧
    vp ∈ plan.versions ∧ ¬vp.Closed plan.chain := by
  have hok : (generate clashingSet {}).toOption.any (fun plan =>
      plan.versions.any fun vp => decide (¬vp.Closed plan.chain)) = true := by decide +kernel
  obtain ⟨plan, hplan, hchecked⟩ := exists_of_toOption_any hok
  obtain ⟨vp, hvp, hopen⟩ := List.any_eq_true.mp hchecked
  exact ⟨plan, vp, hplan, hvp, of_decide_eq_true hopen⟩

end Plan

end Lineage
