import Lineage.Proofs.Plan.Sample
import Lineage.Proofs.Service.Down
import Lineage.Proofs.Service.Hop

namespace Lineage.Service

/-!
# Requests are delivered

A value of a request gets to the private request by the converters of the versions in between, or
past them as a mutation.

* `Carries` — at a visit, whatever will end in a private field is one value, and it is there,
* `Carries.next` — a hop keeps that, `Underway.reaches` — so does a call,
* `delivered_of_generate` — the private request holds the value.
-/

variable {c : Chain} {count : Nat} {r : Registry} {p m t : MethodId} {a b : Visit}
  {v : VersionPlan} {mp : MethodPlan} {target : FieldId} {value : Value}

/-! ### What a visit carries -/

/-- At a visit of a method, whatever will end in a private field is one value, and it is there: as a
    mutation or as the value of a field that is copied on all its ways. -/
structure Carries (c : Chain) (m : MethodId) (target : FieldId) (value : Value) (a : Visit) :
    Prop where
  mutations : ∀ u, ((c.field target).name, u) ∈ a.mutations → u = value
  fields : ∀ g ∈ (c.message (c.method m).input).fields, (c.field g).oneof = none →
    c.StandsFor g target → ∀ u, a.request.get? (c.field g).name = some u → u = value ∧ c.Copied g
  present : (∃ u, ((c.field target).name, u) ∈ a.mutations) ∨
    ∃ g ∈ (c.message (c.method m).input).fields, (c.field g).oneof = none ∧
      c.StandsFor g target ∧ (a.request.get? (c.field g).name).isSome

/-- The mutations of a method are the values of its deprecated inputs that are set. -/
theorem mem_mutationsOf {request : Record} {own : List Mutation}
    (h : Registry.mutationsOf v request mp = .ok own) (x : Mutation) :
    x ∈ own ↔ ∃ i ∈ mp.deprecatedInputs, ∃ u, request.get? i.field = some u ∧
      x.1 = i.privateField ∧ applyAction v i.action u = .ok x.2 := by
  obtain ⟨found, hfound, hown⟩ := bind_eq_ok.mp h
  obtain rfl := pure_eq_ok.mp hown
  have hmem := mem_reduceOption_of_mapM hfound x
  rw [show found.reduceOption = found.filterMap fun f => f from rfl] at hmem
  rw [hmem]
  refine exists_congr fun i => and_congr_right fun _ => ?_
  cases hget : request.get? i.field with
  | none => simp
  | some u =>
    simp only [Option.some.injEq]
    constructor
    · intro hx
      obtain ⟨y, hy, hpair⟩ := bind_eq_ok.mp hx
      obtain rfl := Option.some.inj (pure_eq_ok.mp hpair)
      exact ⟨u, rfl, rfl, hy⟩
    · rintro ⟨_, rfl, hkey, hy⟩
      refine bind_eq_ok.mpr ⟨_, hy, ?_⟩
      rw [← hkey]
      rfl

/-- The request of a public method is a message of a public version. -/
theorem input_public (hplan : r.plan.Generated) (hm : m.index < r.plan.chain.methods.size)
    (hpublic : (r.plan.chain.method m).version.index + 1 < r.plan.chain.versions.size) :
    (r.plan.chain.method m).input.index < r.plan.chain.messages.size ∧
      (r.plan.chain.message (r.plan.chain.method m).input).version.index + 1
        < r.plan.chain.versions.size := by
  obtain ⟨hlt, hle⟩ := hplan.linked.framed.wellFormed.input_behind hm
  exact ⟨hlt, by omega⟩

/-- A private field that a request leads to: a field of the private request. -/
structure Target (c : Chain) (p m : MethodId) (target : FieldId) : Prop where
  field : target ∈ (c.message (c.method p).input).fields
  isPrivate : (c.message (c.method p).input).version.index + 1 = c.versions.size
  exists_method : m.index < c.methods.size
  isPublic : (c.method m).version.index + 1 < c.versions.size
  input : (c.message (c.method m).input).link.final = some (c.method p).input

section
variable (hplan : r.plan.Generated) (hop : Hop r p m a v mp t)
  (htarget : Target r.plan.chain p m target)
include hop

/-- The method that is gone to takes the counterpart of the request. -/
theorem Hop.downLink_input : View.downLink
    ((r.plan.chain.methodView m).way (r.plan.chain.method m)).down
    (r.plan.chain.message (r.plan.chain.method m).input).link
      = some (r.plan.chain.method t).input := by
  obtain hgoes | hgoes := hop.goes
  · rw [hgoes.down]
    exact hgoes.input
  · rw [hgoes.down]
    exact hgoes.input

include hplan htarget

/-- What leads to a field that stands for the private field stands for it too. -/
theorem Hop.standsFor {f g : FieldId}
    (hf : f ∈ (r.plan.chain.message (r.plan.chain.method m).input).fields)
    (hg : View.downLink ((r.plan.chain.methodView m).way (r.plan.chain.method m)).down
      (r.plan.chain.field f).link = some g)
    (hs : r.plan.chain.StandsFor g target) : r.plan.chain.StandsFor f target := by
  have hlinked := hplan.linked
  obtain ⟨-, hpublic⟩ := input_public hplan htarget.exists_method htarget.isPublic
  have hmem : g ∈ (r.plan.chain.message (r.plan.chain.method t).input).fields :=
    downLink_field hlinked hpublic hop.downLink_input hf hg
  obtain hgoes | hgoes := hop.goes
  · -- what lies in the private version is the private field itself
    obtain rfl := hgoes.target
    obtain rfl := hs.eq_of_private hlinked hmem htarget.isPrivate
    rw [hgoes.down] at hg
    exact .inr hg
  · obtain ⟨-, hnext⟩ := input_public hplan hop.exists_target hgoes.isPublic
    rw [hgoes.down] at hg
    obtain ⟨-, hfinal⟩ := hlinked.field_next hf hpublic hgoes.input hg
    have hown := hs.final_eq hlinked hmem hnext htarget.field htarget.isPrivate
    exact .inr (hfinal.symm.trans hown)

/-- A deprecated input that is written under the name of the private field stands for it. -/
theorem Hop.exists_deprecated (hmembers : r.plan.chain.UniqueMembers) {i : DeprecatedInput}
    (hi : i ∈ mp.deprecatedInputs) (hname : (r.plan.chain.field target).name = i.privateField) :
    ∃ f ∈ (r.plan.chain.message (r.plan.chain.method m).input).fields,
      (r.plan.chain.field f).oneof = none ∧ (r.plan.chain.field f).link.final = some target ∧
        i.field = (r.plan.chain.field f).name ∧
        ((r.plan.chain.methodView m).action .toPrivate f target target).result
          = .ok (some i.action) := by
  have hwf := hplan.linked.framed.wellFormed
  obtain ⟨-, hpublic⟩ := input_public hplan htarget.exists_method htarget.isPublic
  rw [hop.planned] at hi
  obtain ⟨x, hx, hinput⟩ := View.mem_deprecatedInputs hi
  obtain ⟨hfield, hprivate, haction⟩ := View.inputOf_eq_some hinput
  obtain ⟨f, hf, hxf, hplain, hfinal⟩ : ∃ f ∈ (r.plan.chain.message
      (r.plan.chain.method m).input).fields, x.1 = r.plan.chain.field f ∧
      (r.plan.chain.field f).oneof = none ∧ (r.plan.chain.field f).link.final = some x.2 := by
    obtain ⟨f', hf', hlink⟩ := List.mem_filterMap.mp (View.mem_skipping hx)
    obtain ⟨y, hy, rfl⟩ := Option.map_eq_some_iff.mp hlink
    obtain ⟨f, hf, hplain, rfl⟩ := Chain.mem_plainFields.mp (List.mem_of_mem_filter hf')
    exact ⟨f, hf, rfl, hplain, hy⟩
  -- private fields of one name are one
  obtain ⟨q, hq, hmem⟩ := hplan.linked.field_final hf hpublic htarget.input
  obtain rfl := Option.some.inj (hfinal.symm.trans hq)
  obtain heq := hmembers.uniqueFields.eq htarget.field hmem (hname.trans hprivate)
  rw [hxf, hwf.field_id ((hwf.mem_fields _ f).mp hf).1] at haction
  rw [heq]
  exact ⟨f, hf, hplain, hfinal, by rw [hfield, hxf], haction⟩

omit htarget in
/-- A deprecated field of the request that stands for the private field is a deprecated input, if
    the value is copied and the method does not go straight to the private one. -/
theorem Hop.exists_deprecatedInput
    (hgoes : r.plan.chain.GoesToNext r.plan.chain.versions.size p m t) {f : FieldId}
    (hf : f ∈ (r.plan.chain.message (r.plan.chain.method m).input).fields)
    (hcopied : r.plan.chain.Copied f) (hdeprecated : (r.plan.chain.field f).deprecated)
    (hfinal : (r.plan.chain.field f).link.final = some target) :
    ∃ i ∈ mp.deprecatedInputs, i.field = (r.plan.chain.field f).name ∧
      i.privateField = (r.plan.chain.field target).name ∧ i.action = .copy := by
  have hwf := hplan.linked.framed.wellFormed
  have hid : (r.plan.chain.field f).id = f := hwf.field_id ((hwf.mem_fields _ f).mp hf).1
  have haction : ((r.plan.chain.methodView m).action .toPrivate (r.plan.chain.field f).id target
      target).result = .ok (some .copy) := by
    rw [hid]
    exact View.action_copy (hcopied.classifyPair (.inr hfinal))
  have hmem : (r.plan.chain.field f, target) ∈
      (r.plan.chain.methodView m).skipping (r.plan.chain.method m) := by
    rw [View.skipping, hgoes.route, beq_self_eq_true, if_pos rfl]
    refine List.mem_filterMap.mpr ⟨r.plan.chain.field f, List.mem_filter.mpr ⟨?_, hdeprecated⟩, ?_⟩
    · exact Chain.mem_plainFields.mpr ⟨f, hf, hcopied.plain, rfl⟩
    · rw [hfinal]
      rfl
  have hinput : (r.plan.chain.methodView m).inputOf (r.plan.chain.field f, target) = some
      { field := (r.plan.chain.field f).name, privateField := (r.plan.chain.field target).name
        setter := setterName (r.plan.chain.field target).name
        repeated := (r.plan.chain.field f).repeated, action := .copy } := by
    unfold View.inputOf
    dsimp only
    rw [haction]
    rfl
  rw [hop.planned]
  exact ⟨_, List.mem_filterMap.mpr ⟨_, hmem, hinput⟩, rfl, rfl, rfl⟩

/-- A mutation of the private field that the method adds has the value that is carried. -/
theorem Carries.eq_of_mem_mutationsOf (hmembers : r.plan.chain.UniqueMembers)
    (h : Carries r.plan.chain m target value a) {own : List Mutation}
    (hown : Registry.mutationsOf v a.request mp = .ok own) {u : Value}
    (hu : ((r.plan.chain.field target).name, u) ∈ own) : u = value := by
  obtain ⟨i, hi, u₀, hu₀, hname, happly⟩ := (mem_mutationsOf hown _).mp hu
  obtain ⟨f, hf, hplain, hfinal, hfield, haction⟩ :=
    hop.exists_deprecated hplan htarget hmembers hi hname
  rw [hfield] at hu₀
  obtain ⟨rfl, hcopied⟩ := h.fields f hf hplain (.inr hfinal) u₀ hu₀
  rw [View.action_copy (w := r.plan.chain.methodView m) (hcopied.classifyPair (.inr hfinal))]
    at haction
  rw [← Option.some.inj (Except.ok.inj haction)] at happly
  exact (Except.ok.inj happly).symm

/-- A field of the converted request that will end in the private field has the value that is
    carried. -/
theorem Carries.eq_of_converted (hmembers : r.plan.chain.UniqueMembers)
    (h : Carries r.plan.chain m target value a) {x : MessageConverter} {n : Nat} {out : Record}
    (hx : ((r.plan.chain.methodView m).messageConverter
      ((r.plan.chain.methodView m).way (r.plan.chain.method m)).down
      (r.plan.chain.method m).input).result = .ok x)
    (hrun : runDown (convertWithin v n) x a.request = .ok out) {g : FieldId}
    (hg : g ∈ (r.plan.chain.message (r.plan.chain.method t).input).fields)
    (hs : r.plan.chain.StandsFor g target) {u : Value}
    (hu : out.get? (r.plan.chain.field g).name = some u) :
    u = value ∧ r.plan.chain.Copied g := by
  obtain ⟨-, hpublic⟩ := input_public hplan htarget.exists_method htarget.isPublic
  obtain ⟨f, hf, hplain, hlink, u₀, action, hu₀, haction, hconvert⟩ :=
    exists_source (w := r.plan.chain.methodView m) hplan.linked hmembers hpublic
      hop.downLink_input hx (View.isDown_way _ _) hrun hg hu
  obtain ⟨rfl, hcopied⟩ := h.fields f hf hplain (hop.standsFor hplan htarget hf hlink hs) u₀ hu₀
  have hleads : r.plan.chain.Leads f g := by
    unfold View.downLink at hlink
    split at hlink
    · exact .inl hlink
    · exact .inr hlink
  rw [View.action_copy (w := r.plan.chain.methodView m) (hcopied.classifyPair hleads)] at haction
  rw [← Option.some.inj (Except.ok.inj haction), convertWithin_copy] at hconvert
  exact ⟨(Except.ok.inj hconvert).symm, hcopied.leads hleads⟩

/-- A copied field that is set goes on: past the next version as a mutation, or along in the
    converted request. -/
theorem Hop.goes_on {x : MessageConverter} {n : Nat} {out : Record}
    (hx : ((r.plan.chain.methodView m).messageConverter
      ((r.plan.chain.methodView m).way (r.plan.chain.method m)).down
      (r.plan.chain.method m).input).result = .ok x)
    (hrun : runDown (convertWithin v n) x a.request = .ok out) {own : List Mutation}
    (hown : Registry.mutationsOf v a.request mp = .ok own) {f : FieldId}
    (hf : f ∈ (r.plan.chain.message (r.plan.chain.method m).input).fields)
    (hcopied : r.plan.chain.Copied f) (hs : r.plan.chain.StandsFor f target)
    (hset : (a.request.get? (r.plan.chain.field f).name).isSome) :
    (∃ u, ((r.plan.chain.field target).name, u) ∈ own) ∨
      ∃ g ∈ (r.plan.chain.message (r.plan.chain.method t).input).fields,
        (r.plan.chain.field g).oneof = none ∧ r.plan.chain.StandsFor g target ∧
          (out.get? (r.plan.chain.field g).name).isSome := by
  have hwf := hplan.linked.framed.wellFormed
  obtain ⟨-, hpublic⟩ := input_public hplan htarget.exists_method htarget.isPublic
  have hfinal := hs.final_eq hplan.linked hf hpublic htarget.field htarget.isPrivate
  by_cases hlive : ((r.plan.chain.methodView m).way (r.plan.chain.method m)).down = .toNext ∧
      (r.plan.chain.field f).deprecated = true
  · -- only a method that goes to the next version leaves a deprecated field behind
    obtain hgoes | hgoes := hop.goes
    · cases hgoes.down.symm.trans hlive.1
    · obtain ⟨i, hi, hfield, hname, haction⟩ :=
        hop.exists_deprecatedInput hplan hgoes hf hcopied hlive.2 hfinal
      obtain ⟨u, hu⟩ := Option.isSome_iff_exists.mp hset
      exact .inl ⟨u, (mem_mutationsOf hown _).mpr ⟨i, hi, u, hfield ▸ hu, hname.symm,
        haction ▸ rfl⟩⟩
  · obtain ⟨g, hlink, hget⟩ := isSome_of_source (w := r.plan.chain.methodView m) hwf hx
      (View.isDown_way _ _) hrun hf hcopied hset hlive
    have hmem := downLink_field hplan.linked hpublic hop.downLink_input hf hlink
    obtain hgoes | hgoes := hop.goes
    · rw [hgoes.down] at hlink
      obtain rfl := Option.some.inj (hfinal.symm.trans hlink)
      exact .inr ⟨_, hmem, (hcopied.leads (.inr hfinal)).plain, .inl rfl, hget⟩
    · rw [hgoes.down] at hlink
      obtain ⟨-, hshared⟩ := hplan.linked.field_next hf hpublic hgoes.input hlink
      exact .inr ⟨g, hmem, (hcopied.leads (.inl hlink)).plain, .inr (hshared.trans hfinal), hget⟩

/-- **One hop.** What is carried is carried on. -/
theorem Carries.next (hmembers : r.plan.chain.UniqueMembers) (hdefault : r.converters = [])
    {o : Handover} (hok : r.handOver v mp a.name a.request a.mutations = .ok o)
    (h : Carries r.plan.chain m target value a) :
    Carries r.plan.chain t target value (a.next r mp o) := by
  obtain ⟨x, own, hx, hrun, hown, hmutations, -⟩ := hop.handOver_eq_ok hdefault hok
  constructor
  case mutations =>
    intro u hu
    have hmem : ((r.plan.chain.field target).name, u) ∈ a.mutations ++ own := hmutations ▸ hu
    obtain hmem | hmem := List.mem_append.mp hmem
    · exact h.mutations u hmem
    · exact h.eq_of_mem_mutationsOf hplan hop htarget hmembers hown hmem
  case fields =>
    exact fun g hg _ hs u hu => h.eq_of_converted hplan hop htarget hmembers hx hrun hg hs hu
  case present =>
    show (∃ u, _ ∈ o.mutations) ∨ _
    rw [hmutations]
    obtain ⟨u, hu⟩ | ⟨f, hf, hplain, hs, hset⟩ := h.present
    · exact .inl ⟨u, List.mem_append_left _ hu⟩
    · obtain ⟨u, hu⟩ := Option.isSome_iff_exists.mp hset
      obtain ⟨-, hcopied⟩ := h.fields f hf hplain hs u hu
      obtain ⟨u, hu⟩ | hset := hop.goes_on hplan htarget hx hrun hown hf hcopied hs hset
      · exact .inl ⟨u, List.mem_append_right _ hu⟩
      · exact .inr hset

end

/-! ### Calls -/

/-- A visit on the way to the private method `p` that carries a value that ends in a
    private field. -/
def Underway (r : Registry) (p : MethodId) (target : FieldId) (value : Value) (a : Visit) : Prop :=
  ∃ m, a.Of r.plan m ∧ Carries r.plan.chain m target value a ∧
    (m = p ∧ a.index + 1 = r.plan.chain.versions.size ∨
      a.index + 1 < r.plan.chain.versions.size ∧ (r.plan.chain.method m).link.final = some p)

/-- What is underway is on a visit that leads to the private method. -/
theorem Underway.bound (h : Underway r p target value a) : Bound r.plan p a := by
  obtain ⟨m, hof, -, hleads⟩ := h
  exact ⟨m, hof.exists_method, hof.version, hof.name, hleads⟩

/-- A method that leads to a private one takes a request that leads to the private request. -/
theorem target_of_final (hplan : r.plan.Generated) (hm : m.index < r.plan.chain.methods.size)
    (hpublic : (r.plan.chain.method m).version.index + 1 < r.plan.chain.versions.size)
    (hp : (r.plan.chain.method m).link.final = some p)
    (hfield : target ∈ (r.plan.chain.message (r.plan.chain.method p).input).fields) :
    Target r.plan.chain p m target := by
  obtain ⟨q, hcommutes⟩ := hplan.linked.commutes (fun _ => hplan.corresponds) hm hpublic
  obtain rfl := Option.some.inj (hp.symm.trans hcommutes.final)
  obtain ⟨hlt, hinput⟩ := input_public hplan hm hpublic
  obtain ⟨-, hlast⟩ := hplan.linked.message_final_lt hlt hinput hcommutes.input
  exact ⟨hfield, hlast, hm, hpublic, hcommutes.input⟩

section
variable (hplan : r.plan.Generated) (hnames : r.plan.chain.UniqueMethods)
  (hun : r.plan.chain.UnambiguousConverters)
include hplan hnames hun

/-- **One visit.** What is carried is carried on to the visit that follows. -/
theorem Underway.step (hmembers : r.plan.chain.UniqueMembers) (hdefault : r.converters = [])
    (hfield : target ∈ (r.plan.chain.message (r.plan.chain.method p).input).fields)
    (h : Underway r p target value a) (hs : a.Step r b) :
    Underway r p target value b := by
  have hbound := h.bound
  obtain ⟨m, hof, hcarries, hleads⟩ := h
  obtain ⟨hat, hroute, hok⟩ := hs
  obtain ⟨-, hlast⟩ | ⟨hpublic, hp⟩ := hleads
  · -- nothing follows a visit of the private version
    obtain ⟨v', m', hfound⟩ := hbound.found hplan hnames
    obtain ⟨rfl, rfl⟩ := hfound.hat.unique hat
    exact absurd (hfound.private_iff.mpr (hplan.length_versions ▸ hlast)) hroute
  · obtain ⟨v', mp', t, hop⟩ := exists_hop hplan hnames hun hof hpublic hp
    obtain ⟨rfl, rfl⟩ := hop.hat.unique hat
    have hversion := hof.version
    have htarget := target_of_final hplan hof.exists_method (by omega) hp hfield
    have hnext := hop.next_of hplan
    refine ⟨t, hnext _, hcarries.next hplan hop htarget hmembers hdefault hok, ?_⟩
    have hindex := (hnext ‹Handover›).version
    obtain hgoes | hgoes := hop.goes
    · exact .inl ⟨hgoes.target, hindex ▸ hgoes.last⟩
    · exact .inr ⟨hindex ▸ hgoes.isPublic, hgoes.final⟩

/-- What is underway stays so on all visits that follow. -/
theorem Underway.reaches (hmembers : r.plan.chain.UniqueMembers) (hdefault : r.converters = [])
    (hfield : target ∈ (r.plan.chain.message (r.plan.chain.method p).input).fields)
    (h : Underway r p target value a) (hr : a.Reaches r b) :
    Underway r p target value b := by
  induction hr with
  | refl => exact h
  | tail _ hs ih => exact ih.step hplan hnames hun hmembers hdefault hfield hs

/-- The private request holds the value that arrives with it. -/
theorem Underway.written
    (hprivate : (r.plan.chain.message (r.plan.chain.method p).input).version.index + 1
      = r.plan.chain.versions.size) (h : Underway r p target value a) (hat : a.At r v mp)
    (hbackend : mp.route = .backend) :
    a.written.get? (r.plan.chain.field target).name = some value := by
  obtain ⟨m, hof, hcarries, ⟨rfl, -⟩ | ⟨hpublic, hp⟩⟩ := h
  · -- a mutation overwrites the field; either way it is the one value
    obtain ⟨u, hu, hget⟩ | ⟨hnone, hget⟩ :=
      Record.get?_write a.request a.mutations (r.plan.chain.field target).name
    · rw [show a.written = a.request.write a.mutations from rfl, hget, hcarries.mutations u hu]
    · rw [show a.written = a.request.write a.mutations from rfl, hget]
      obtain ⟨u, hu⟩ | ⟨g, hg, hplain, hs, hset⟩ := hcarries.present
      · exact absurd rfl (hnone _ hu)
      · obtain rfl := hs.eq_of_private hplan.linked hg hprivate
        obtain ⟨u, hu⟩ := Option.isSome_iff_exists.mp hset
        rw [hu, (hcarries.fields g hg hplain hs u hu).1]
  · -- a hop from a public version does not call the backend
    obtain ⟨v', mp', t, hop⟩ := exists_hop hplan hnames hun hof hpublic hp
    obtain ⟨rfl, rfl⟩ := hop.hat.unique hat
    exact absurd hbackend hop.route_ne_backend

end

/-- **Requests are delivered.** For every call of a public method that calls the backend, and every
    plain field of the request whose value is copied on all its ways: if the field is set, and no
    other plain field with its private counterpart is, the private request holds exactly its value
    under the name of its private counterpart. -/
theorem delivered_of_generate {set : DescriptorSet} {config : Config}
    (h : Plan.generate set config = .ok r.plan) (hdefault : r.converters = [])
    (hmembers : r.plan.chain.UniqueMembers) (hnames : r.plan.chain.UniqueMethods)
    (hun : r.plan.chain.UnambiguousConverters) {package : String} {v : Version}
    (hv : r.plan.chain.versionOf? package = some v) (hpublic : v.isPrivate = false)
    {m : MethodId} (hm : m ∈ v.methods) {f : FieldId}
    (hf : f ∈ (r.plan.chain.message (r.plan.chain.method m).input).fields)
    (hcopied : r.plan.chain.Copied f) {request : Record} {value : Value}
    (hset : request.get? (r.plan.chain.field f).name = some value)
    (halone : ∀ g ∈ (r.plan.chain.message (r.plan.chain.method m).input).fields,
      (r.plan.chain.field g).oneof = none →
      (r.plan.chain.field g).link.final = (r.plan.chain.field f).link.final → g ≠ f →
      request.get? (r.plan.chain.field g).name = none)
    {σ : Type} (backend : Backend σ) (state : σ) {name : String} {q : Record}
    (hcall : (name, q) ∈
      (r.observe backend package (r.plan.chain.method m).name request state).calls) :
    ∃ p, (r.plan.chain.field f).link.final = some p ∧
      q.get? (r.plan.chain.field p).name = some value := by
  have hplan := Plan.generated_of_generate h
  obtain ⟨hpackage, hsize, hindex, hbefore, p, hp⟩ := exists_start hplan hv hpublic hm
  obtain ⟨-, hinput⟩ := input_public hplan hsize (by omega)
  obtain ⟨target, hfinal, hfield⟩ := hplan.linked.field_final hf hinput hp.input
  have htarget := target_of_final hplan hsize (by omega) hp.final hfield
  -- the call begins with nothing but the value of the field
  let start : Visit :=
    { index := v.id.index, name := (r.plan.chain.method m).name, request, mutations := [] }
  have hcarries : Carries r.plan.chain m target value start := by
    constructor
    case mutations =>
      intro u hu
      cases hu
    case fields =>
      intro g hg hplain hs u hu
      have hown := hs.final_eq hplan.linked hg hinput hfield htarget.isPrivate
      by_cases hgf : g = f
      · subst hgf
        exact ⟨Option.some.inj (hu.symm.trans hset), hcopied⟩
      · have hnone := halone g hg hplain (hown.trans hfinal.symm) hgf
        cases hnone.symm.trans hu
    case present => exact .inr ⟨f, hf, hcopied.plain, .inr hfinal, by
      show (request.get? _).isSome = true
      rw [hset]
      rfl⟩
  have hunderway : Underway r p target value start :=
    ⟨m, ⟨hsize, hindex, rfl⟩, hcarries, .inr ⟨hbefore, hp.final⟩⟩
  change (name, q) ∈ (r.observe backend package start.name start.request state).calls at hcall
  -- the backend is called at most once, at a visit that the value has arrived at
  obtain ⟨hnone, -⟩ | ⟨a, va, ma, hreaches, hat, hbackend, -, hcalls, -⟩ :=
    (hunderway.bound.gated hplan hnames hpackage rfl).once σ backend state
  · rw [hnone] at hcall
    cases hcall
  · rw [hcalls] at hcall
    obtain ⟨-, rfl⟩ := Prod.mk.inj (List.mem_singleton.mp hcall)
    have harrived := hunderway.reaches hplan hnames hun hmembers hdefault hfield hreaches
    exact ⟨target, hfinal, harrived.written hplan hnames hun htarget.isPrivate hat hbackend⟩

/-- A backend that always answers with an empty response. -/
def emptyBackend : Backend Unit :=
  { call := fun _ _ s => (.ok { message := "private.Response" }, s) }

/-- A request of the first version of the sample, with a note. -/
def noteRequest : Record := { message := "v1.Request", fields := [("note", .str "urgent")] }

set_option maxRecDepth 10000 in
/-- The note of a request of the first version of the sample, which bypasses the second one. -/
theorem delivered_sample : ∃ name q, (name, q) ∈ (Registry.observe { plan := Plan.notePlan }
      emptyBackend "v1" "Get" noteRequest ()).calls ∧
    ∃ p, (Plan.notePlan.chain.field ⟨1⟩).link.final = some p ∧
      q.get? (Plan.notePlan.chain.field p).name = some (.str "urgent") := by
  obtain ⟨hcalls, hv, hpublic, hname, hnote, hm, hf, hclosed, hall, halone⟩ :
      (Registry.observe { plan := Plan.notePlan } emptyBackend "v1" "Get" noteRequest
        ()).calls.isEmpty = false ∧
      Plan.notePlan.chain.versionOf? "v1" = some (Plan.notePlan.chain.version ⟨0⟩) ∧
      (Plan.notePlan.chain.version ⟨0⟩).isPrivate = false ∧
      (Plan.notePlan.chain.method ⟨0⟩).name = "Get" ∧
      (Plan.notePlan.chain.field ⟨1⟩).name = "note" ∧
      ⟨0⟩ ∈ (Plan.notePlan.chain.version ⟨0⟩).methods ∧
      ⟨1⟩ ∈ (Plan.notePlan.chain.message (Plan.notePlan.chain.method ⟨0⟩).input).fields ∧
      (∀ g ∈ [⟨1⟩, ⟨10⟩], ∀ x ∈ (Plan.notePlan.chain.field g).link.next.toList
        ++ (Plan.notePlan.chain.field g).link.final.toList, x ∈ [⟨1⟩, ⟨10⟩]) ∧
      (∀ g ∈ [⟨1⟩, ⟨10⟩], (Plan.notePlan.chain.field g).oneof = none ∧
        (Plan.notePlan.chain.field g).kind = .scalar .string ∧
        (Plan.notePlan.chain.field g).repeated = (Plan.notePlan.chain.field ⟨1⟩).repeated) ∧
      ∀ g ∈ (Plan.notePlan.chain.message (Plan.notePlan.chain.method ⟨0⟩).input).fields, g ≠ ⟨1⟩ →
        (noteRequest.get? (Plan.notePlan.chain.field g).name).isNone = true := by
    decide +kernel
  obtain ⟨⟨name, q⟩, hcall⟩ := List.exists_mem_of_ne_nil _ (List.isEmpty_eq_false_iff.mp hcalls)
  have hset : noteRequest.get? (Plan.notePlan.chain.field ⟨1⟩).name = some (.str "urgent") := by
    rw [hnote]
    rfl
  have hcopied : Plan.notePlan.chain.Copied ⟨1⟩ :=
    .of_closed [⟨1⟩, ⟨10⟩] List.mem_cons_self hclosed hall
  have hothers : ∀ g ∈ (Plan.notePlan.chain.message (Plan.notePlan.chain.method ⟨0⟩).input).fields,
      (Plan.notePlan.chain.field g).oneof = none →
      (Plan.notePlan.chain.field g).link.final = (Plan.notePlan.chain.field ⟨1⟩).link.final →
      g ≠ ⟨1⟩ → noteRequest.get? (Plan.notePlan.chain.field g).name = none :=
    fun g hg _ _ hne => Option.isNone_iff_eq_none.mp (halone g hg hne)
  exact ⟨name, q, hcall, delivered_of_generate (r := { plan := Plan.notePlan })
    Plan.generate_noteSet rfl Plan.notePlan_checked.2.1 Plan.notePlan_checked.2.2.1
    Plan.notePlan_unambiguousConverters hv hpublic hm hf hcopied hset hothers emptyBackend ()
    (hname ▸ hcall)⟩

end Lineage.Service
