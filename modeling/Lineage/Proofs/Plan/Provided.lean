import Lineage.Proofs.Chain.Counterpart
import Lineage.Proofs.Converter.Parts
import Lineage.Proofs.Plan.Closed
import Lineage.Service.Converter

namespace Lineage

/-!
# Converters that are provided

* `Chain.UniqueMembers` — the names of the fields and oneofs of each message differ,
* `Chain.UnambiguousConverters` — no two types that a public version asks for have converters of one
  name,
* `VersionPlan.Provides` — whatever a version asks for is found under its name, as it was specified,
* `Plan.Generated.provides` — every public version of a generated plan with unambiguous converters
  provides what its methods ask for, `Plan.Generated.provides_found` — each version plan provides
  what its own converters ask for,
* `VersionPlan.Provides.message` — what is found for a message, `Service.convertDown_eq`,
  `Service.convertUp_eq` — what it does.
-/

namespace Chain

variable {c : Chain}

/-- The fields and oneofs of each message have different names. -/
def UniqueMembers (c : Chain) : Prop :=
  ∀ m ∈ c.messages,
    (m.fields.map (fun f => (c.field f).name) ++ m.oneofs.map fun o => (c.oneof o).name).Nodup

instance : Decidable c.UniqueMembers := inferInstanceAs (Decidable (∀ m ∈ c.messages, _))

namespace UniqueMembers

/-- The members of a message have different names. -/
theorem nodup (h : c.UniqueMembers) (m : MessageId) :
    ((c.message m).fields.map (fun f => (c.field f).name) ++
      (c.message m).oneofs.map fun o => (c.oneof o).name).Nodup :=
  forall_getD (d := default) h List.nodup_nil m.index

/-- Unique members are unique fields. -/
theorem uniqueFields (h : c.UniqueMembers) : c.UniqueFields :=
  fun m hm => (List.nodup_append.mp (h m hm)).1

/-- No field has the name of a oneof. -/
theorem field_ne_oneof (h : c.UniqueMembers) {m : MessageId} {f : FieldId} {o : OneofId}
    (hf : f ∈ (c.message m).fields) (ho : o ∈ (c.message m).oneofs) :
    (c.field f).name ≠ (c.oneof o).name :=
  (List.nodup_append.mp (h.nodup m)).2.2 _ (List.mem_map_of_mem hf) _ (List.mem_map_of_mem ho)

/-- Oneofs of a message with one name are the same. -/
theorem oneof_eq (h : c.UniqueMembers) {m : MessageId} {o o' : OneofId}
    (ho : o ∈ (c.message m).oneofs) (ho' : o' ∈ (c.message m).oneofs)
    (hname : (c.oneof o).name = (c.oneof o').name) : o = o' :=
  List.inj_on_of_nodup_map (List.nodup_append.mp (h.nodup m)).2.1 ho ho' hname

end UniqueMembers

/-- No two types that a public version asks for have converters of one name. -/
def UnambiguousConverters (c : Chain) : Prop :=
  ∀ v ∈ c.publicVersions, (c.viewOf v).Unambiguous (c.AsksFor v)

end Chain

/-! ### What is found under a name -/

/-- Whatever is asked for is found under its name, as it was specified. -/
def VersionPlan.Provides (vp : VersionPlan) (w : View) (Root : Request → Prop) : Prop :=
  ∀ r, w.Asked Root r → ∃ x table, vp.converter? (w.nameOf r) = some x ∧
    (w.converter r).result = .ok (x, table)

/-- Some converter of a version plan is found that answers a request. -/
def VersionPlan.Finds (vp : VersionPlan) (r : Request) : Prop :=
  ∃ function x, vp.converter? function = some x ∧ x.request = r

namespace View

variable {w : View}

/-- The counterpart that a converter works against is one of the two. -/
theorem leads_of_side {Id : Type} {kind : ConverterKind} {l : Link Id} {t : Id}
    (h : w.side kind l = some t) : l.Leads t := by
  unfold side at h
  split at h
  · exact .inl h
  · exact .inr h

/-- A message that has a converter is public. -/
theorem public_of_messageConverter {count : Nat} {kind : ConverterKind} {id : MessageId}
    {x : MessageConverter} (h : w.chain.Linked count)
    (hok : (w.messageConverter kind id).result = .ok x) :
    (w.chain.message id).version.index + 1 < count := by
  have hleads := leads_of_side (messageConverter_spec hok).counterpart
  exact h.public_of_leads (n := .message id) (Chain.leads_links_message hleads)

/-- What is asked for on the way down is of the kind that is asked for. -/
theorem request_of_isDown {kind : ConverterKind} (hdown : kind.isDown) (s : Subject) :
    w.request kind s = ⟨kind, s⟩ := by
  cases kind <;> first | rfl | cases hdown

/-- What is asked for on the way up to a type that is not deprecated is of the kind that is asked
    for. -/
theorem request_of_live {kind : ConverterKind} {s : Subject} (hlive : w.isDeprecated s = false) :
    w.request kind s = ⟨kind, s⟩ := by
  simp [request, effective, hlive]

/-- A deprecated type is reached from the private version only. -/
theorem request_toPublic_of_deprecated {s : Subject} (h : w.isDeprecated s) :
    w.request .toPublic s = ⟨.toDeprecatedPublic, s⟩ := by
  simp [request, effective, h]

end View

namespace VersionPlan.Provides

variable {vp : VersionPlan} {w : View} {Root : Request → Prop} (h : vp.Provides w Root)
include h

/-- The converter of a message that is asked for, and what it asks for itself. -/
theorem message {kind : ConverterKind} {m : MessageId} (hr : w.Asked Root ⟨kind, .message m⟩) :
    ∃ y, vp.converter? (w.nameOf ⟨kind, .message m⟩) = some (.message y) ∧
      (w.messageConverter kind m).result = .ok y ∧
      ∀ q ∈ (w.messageConverter kind m).requests, w.Asked Root q := by
  obtain ⟨x, table, hx, hok⟩ := h _ hr
  obtain ⟨y, rfl, hy, hrequests⟩ := View.converter_of_message hok
  exact ⟨y, hx, hy, fun q hq => .nested hr (hrequests ▸ hq)⟩

/-- The converter of an enum that is asked for. -/
theorem enumeration {kind : ConverterKind} {e : EnumId}
    (hr : w.Asked Root ⟨kind, .enumeration e⟩) :
    ∃ y table, vp.converter? (w.nameOf ⟨kind, .enumeration e⟩) = some (.enumeration y) ∧
      w.enumConverter kind e = .ok (y, table) := by
  obtain ⟨x, table, hx, hok⟩ := h _ hr
  obtain ⟨y, rfl, hy⟩ := View.converter_of_enumeration hok
  exact ⟨y, table, hx, hy⟩

end VersionPlan.Provides

namespace Plan

variable {plan : Plan}

/-- The plan of a public version provides what its methods ask for, if no names clash. -/
theorem provides_of_versionPlan {c : Chain} {v : Version} {vp : VersionPlan}
    (hok : versionPlan (.ofChain c) v = .ok vp) (hpublic : v.isPrivate = false)
    (hun : (c.viewOf v).Unambiguous (c.AsksFor v)) : vp.Provides (c.viewOf v) (c.AsksFor v) := by
  obtain ⟨-, -, p, hanswered, hconverters⟩ := versionPlan_public hok hpublic
  have hroot : ∀ q, c.AsksFor v q → (c.viewOf v).nameOf q ∈ p.queued := by
    rintro q ⟨m, hm, hq⟩
    exact hanswered.queued q (List.mem_flatMap.mpr ⟨_, List.mem_map_of_mem hm, hq⟩)
  have hnames := (View.serves_iff_unambiguous hanswered hconverters hroot).mpr hun
  intro r hr
  obtain ⟨x, hx, hsubject⟩ := View.serves_of_names hanswered hconverters hnames hr
  have hmem := Sorted.mem_of_get? hx
  rw [hconverters] at hmem
  obtain ⟨table, -, hname, hresult, -⟩ := hanswered.tracked.specified hmem
  -- a name stands for one kind, so that the converter is the one that was asked for
  obtain rfl := View.request_eq hname hsubject
  exact ⟨x, table, hx, hresult⟩

/-- **What is asked for is provided** by every public version of a generated plan whose converters
    are unambiguous. -/
theorem Generated.provides (h : plan.Generated) (hun : plan.chain.UnambiguousConverters)
    {v : VersionId} (hv : v.index + 1 < plan.chain.versions.size) {vp : VersionPlan}
    (hvp : plan.versions[v.index]? = some vp) :
    vp.Provides (plan.chain.viewOf (plan.chain.version v))
      (plan.chain.AsksFor (plan.chain.version v)) := by
  have hframed := h.linked.framed
  have hlt := Nat.lt_of_succ_lt hv
  obtain ⟨-, hok⟩ := h.getElem?_eq_some hvp
  have hpublic := hframed.isPrivate_eq_false hv
  have hid : (plan.chain.version v).id = v := hframed.version_id hlt
  refine provides_of_versionPlan hok hpublic (hun _ (hframed.mem_publicVersions.mpr ?_))
  rw [hid]
  exact ⟨hv, rfl⟩

/-- The converters of a version plan are all specified for its version, each under its name. -/
theorem Generated.exists_specified (h : plan.Generated) {vp : VersionPlan}
    (hvp : vp ∈ plan.versions) :
    ∃ v : Version, v.id = vp.version ∧ ∀ function x, (function, x) ∈ vp.converters →
      (plan.chain.viewOf v).nameOf x.request = function ∧ ∃ table,
        ((plan.chain.viewOf v).converter x.request).result = .ok (x, table) := by
  obtain ⟨v, -, hok⟩ := forall₂_exists_left h.versions hvp
  refine ⟨v, (versionPlan_eq_ok hok).1.version.symm, fun function x hx => ?_⟩
  cases hprivate : v.isPrivate with
  | true =>
    rw [(versionPlan_private hok hprivate).2.1] at hx
    cases hx
  | false =>
    obtain ⟨-, -, p, hanswered, hconverters⟩ := versionPlan_public hok hprivate
    rw [hconverters] at hx
    obtain ⟨table, -, hname, hresult, -⟩ := hanswered.tracked.specified hx
    exact ⟨hname, table, hresult⟩

/-- Whatever converter is found in a version plan is the one that is specified for its type. -/
theorem Generated.specified (h : plan.Generated) {vp : VersionPlan} (hvp : vp ∈ plan.versions)
    {function : String} {x : Converter} (hx : vp.converter? function = some x) :
    ∃ v : Version, ∃ table,
      ((plan.chain.viewOf v).converter x.request).result = .ok (x, table) := by
  obtain ⟨v, -, hspecified⟩ := h.exists_specified hvp
  exact ⟨v, (hspecified function x (Sorted.mem_of_get? hx)).2⟩

/-- Whatever converter is found in the plan of a public version is asked for there, and is what it
    should be. -/
theorem Generated.asked (h : plan.Generated) {v : VersionId}
    (hv : v.index + 1 < plan.chain.versions.size) {vp : VersionPlan}
    (hvp : plan.versions[v.index]? = some vp) {function : String} {x : Converter}
    (hx : vp.converter? function = some x) :
    (plan.chain.viewOf (plan.chain.version v)).Asked (plan.chain.AsksFor (plan.chain.version v))
        x.request ∧
      ∃ table, ((plan.chain.viewOf (plan.chain.version v)).converter x.request).result
        = .ok (x, table) := by
  obtain ⟨-, hok⟩ := h.getElem?_eq_some hvp
  have hpublic := h.linked.framed.isPrivate_eq_false hv
  obtain ⟨-, -, p, hanswered, hconverters⟩ := versionPlan_public hok hpublic
  have hmem := Sorted.mem_of_get? hx
  rw [hconverters] at hmem
  obtain ⟨table, hasked, -, hresult, -⟩ := hanswered.tracked.specified hmem
  exact ⟨hasked, table, hresult⟩

/-- A version plan of a generated plan has converters under their own names, and provides what they
    ask for if the converters that they name are those of the types of fields. -/
theorem Generated.provides_found (h : plan.Generated) (hfields : plan.chain.UniqueFields)
    {vp : VersionPlan} (hvp : vp ∈ plan.versions)
    (hresolves : ∀ n x, (n, .message x) ∈ vp.converters → vp.ResolvesMessage plan.chain x) :
    ∃ v : Version, (∀ function x, vp.converter? function = some x →
        (plan.chain.viewOf v).nameOf x.request = function) ∧
      vp.Provides (plan.chain.viewOf v) vp.Finds := by
  have hwf := h.linked.framed.wellFormed
  obtain ⟨v, -, hspecified⟩ := h.exists_specified hvp
  refine ⟨v, fun function x hx => (hspecified function x (Sorted.mem_of_get? hx)).1,
    fun r hr => ?_⟩
  induction hr with
  | root hr =>
    obtain ⟨function, x, hx, rfl⟩ := hr
    obtain ⟨hname, table, hok⟩ := hspecified function x (Sorted.mem_of_get? hx)
    exact ⟨x, table, hname ▸ hx, hok⟩
  | nested _ hq ih =>
    obtain ⟨x, table, hx, hok⟩ := ih
    cases x with
    | message x =>
      obtain ⟨-, hfor⟩ := View.converter_message hok
      obtain ⟨y, hy, hsubject⟩ :=
        hfor.serves hwf hfields (hresolves _ x (Sorted.mem_of_get? hx)) _ hq
      obtain ⟨hname, table', hok'⟩ := hspecified _ y (Sorted.mem_of_get? hy)
      -- a name stands for one kind, so that the converter is the one that was asked for
      obtain rfl := View.request_eq hname hsubject
      exact ⟨y, table', hy, hok'⟩
    | enumeration x =>
      rw [View.converter_enumeration hok] at hq
      cases hq

/-- A generated plan has unambiguous converters if the converters of its version plans
    are closed. -/
theorem Generated.unambiguousConverters (h : plan.Generated) (hfields : plan.chain.UniqueFields)
    (hclosed : ∀ vp ∈ plan.versions, vp.ClosedConverters plan.chain) :
    plan.chain.UnambiguousConverters := by
  intro v hv
  have hframed := h.linked.framed
  obtain ⟨hpublic, heq⟩ := hframed.mem_publicVersions.mp hv
  obtain ⟨vp, hvp, hok⟩ := h.getElem?_version (Nat.lt_of_succ_lt hpublic)
  rw [heq] at hok
  have hprivate : v.isPrivate = false := heq ▸ hframed.isPrivate_eq_false hpublic
  exact (closedConverters_public hframed.wellFormed hok hprivate).2 hfields
    (hclosed vp (List.mem_of_getElem? hvp))

end Plan

namespace Service

/-- A converter that leads down, found under a name, makes a record into its counterpart. -/
theorem convertDown_eq {vp : VersionPlan} {w : View} {kind : ConverterKind} {m : MessageId}
    {x : MessageConverter} {function : String} (hx : vp.converter? function = some (.message x))
    (hok : (w.messageConverter kind m).result = .ok x) (hdown : kind.isDown) (input : Record) :
    convertDown vp function input = runDown (convertWithin vp (input.depth + 1)) x input := by
  have hshape : x.shape = .down :=
    (View.messageConverter_spec hok).shape.trans ((w.shape_eq_down kind).mpr hdown)
  simp [convertDown, messageConverter?, hx, hshape, bind, Except.bind]

/-- A converter that leads up, found under a name, makes a record from its counterparts. -/
theorem convertUp_eq {vp : VersionPlan} {w : View} {kind : ConverterKind} {m : MessageId}
    {x : MessageConverter} {function : String} (hx : vp.converter? function = some (.message x))
    (hok : (w.messageConverter kind m).result = .ok x) (hup : kind.isDown = false)
    (next : Option Record) (final : Record) :
    convertUp vp function next final
      = runUp (convertWithin vp (max ((next.map Record.depth).getD 0) final.depth + 1))
          x next final := by
  have hshape : x.shape ≠ .down := by
    rw [(View.messageConverter_spec hok).shape, ne_eq, View.shape_eq_down, hup]
    exact Bool.false_ne_true
  simp [convertUp, messageConverter?, hx, hshape, bind, Except.bind]

end Service

end Lineage
