import Lineage.Proofs.Chain.Counterpart
import Lineage.Proofs.Converter.Mutator
import Lineage.Proofs.Plan.Generated

namespace Lineage

/-!
# Methods and the types they end in

* `Chain.Commutes` — the types of a method lead to those of the private method that it leads to,
* `Chain.Corresponds` — a method has a target whose types are those that its own types lead to,
* `Chain.Linked.commutes` — if every public method corresponds to its target, every public method
  commutes,
* `VersionPlan.EndsIn` — a version plan writes and reads the types of private methods,
* `Plan.endsIn_of_generate` — so does every public version of a generated plan.
-/

namespace Chain

variable {c : Chain} {count : Nat}

/-- The types of a method lead to those of the private method that it leads to. -/
structure Commutes (c : Chain) (m p : MethodId) : Prop where
  final : (c.method m).link.final = some p
  input : (c.message (c.method m).input).link.final = some (c.method p).input
  output : (c.message (c.method m).output).link.final = some (c.method p).output

/-- A method has a target whose types are those that its own types lead to. -/
def Corresponds (c : Chain) (v : Version) (m : MethodId) : Prop :=
  ∃ t, ((c.viewOf v).way (c.method m)).target = some t ∧
    (c.viewOf v).checkTypes (c.method m) ((c.viewOf v).way (c.method m)).route (c.method t) = .ok ()

/-! ### One hop -/

/-- The check passes if what is found is what is expected. -/
theorem checkCorrespondence_eq_ok {w : View} {m : Method} {role : Role}
    {found : Option MessageId} {expected : MessageId} {u : Unit} :
    w.checkCorrespondence m role found expected = .ok u ↔ found = some expected := by
  unfold View.checkCorrespondence
  split
  · rename_i h
    simpa using h
  · rename_i h
    simpa using h

/-- What is checked of a method that goes straight to the private version. -/
theorem checkTypes_toPrivate {w : View} {m target : Method}
    (h : w.checkTypes m .toPrivate target = .ok ()) :
    (w.chain.message m.input).link.final = some target.input ∧
      (w.chain.message m.output).link.final = some target.output := by
  simp only [View.checkTypes, bind_eq_ok, checkCorrespondence_eq_ok] at h
  obtain ⟨_, hinput, houtput⟩ := h
  exact ⟨by simpa using hinput, by simpa using houtput⟩

/-- What is checked of a method that goes to the next version: a deprecated response bypasses it. -/
theorem checkTypes_toNext {w : View} {m target : Method}
    (h : w.checkTypes m .toNext target = .ok ()) :
    (w.chain.message m.input).link.next = some target.input ∧
      if (w.chain.message m.output).deprecated then
        (w.chain.message m.output).link.final =
          some ((target.link.final.map fun p => (w.chain.method p).output).getD target.output)
      else (w.chain.message m.output).link.next = some target.output := by
  simp only [View.checkTypes, bind_eq_ok, checkCorrespondence_eq_ok] at h
  obtain ⟨_, hinput, houtput⟩ := h
  refine ⟨by simpa using hinput, ?_⟩
  cases hd : (w.chain.message m.output).deprecated <;> simpa [hd] using houtput

/-- A message leads to the private counterpart of its next counterpart. -/
theorem Linked.message_final (h : c.Linked count) {m n : MessageId}
    (hm : m.index < c.messages.size) (hpublic : (c.message m).version.index + 1 < count)
    (hnext : (c.message m).link.next = some n) :
    (c.message m).link.final = (c.message n).link.final := by
  have hfinal := ((h.coherent (n := .message m) hm hpublic).next (.message n)
    (by simp [links, hnext])).2.2
  have hinj : Function.Injective Node.message := fun _ _ heq => Node.message.inj heq
  exact (Option.map_injective hinj hfinal).symm

/-- A method that is not deprecated and not of the latest version leads to the private counterpart
    of its next counterpart, a method of the version that follows. -/
theorem Linked.method_next (h : c.Linked count) {m t : MethodId} (hm : m.index < c.methods.size)
    (hpublic : (c.method m).version.index + 1 < count) (hnext : (c.method m).link.next = some t) :
    t.index < c.methods.size ∧ (c.method t).version.index = (c.method m).version.index + 1 ∧
      (c.method m).version.index + 2 < count ∧
      (c.method m).link.final = (c.method t).link.final := by
  have hcoherent := h.coherent (n := .method m) hm hpublic
  have hlinks : (c.links (.method m)).next = some (.method t) := by simp [links, hnext]
  obtain ⟨-, hmem, hfinal⟩ := hcoherent.next (.method t) hlinks
  obtain ⟨hhas, hversion⟩ := (h.framed.wellFormed.mem_nodesOf _ _).mp hmem
  have hlatest := (hcoherent.next_isSome.mp (by rw [hlinks]; rfl)).1
  rw [versionOf, h.framed.isLatest_eq (Nat.lt_of_succ_lt hpublic)] at hlatest
  have hindex := congrArg VersionId.index hversion
  have hne : (c.method m).version.index + 2 ≠ count := by simpa using hlatest
  have hinj : Function.Injective Node.method := fun _ _ heq => Node.method.inj heq
  refine ⟨hhas, hindex, ?_, (Option.map_injective hinj hfinal).symm⟩
  omega

/-- The private counterpart of a method is a method of the private version. -/
theorem Linked.method_final (h : c.Linked count) {m p : MethodId} (hm : m.index < c.methods.size)
    (hpublic : (c.method m).version.index + 1 < count) (hp : (c.method m).link.final = some p) :
    p.index < c.methods.size ∧ (c.method p).version.index + 1 = count := by
  obtain ⟨q, hq, -, hhas, hversion⟩ :=
    (h.coherent (n := .method m) hm hpublic).final_version h.framed
  obtain rfl : .method p = q := by simpa [links, hp] using hq
  have hindex : (c.method p).version.index = count - 1 := congrArg VersionId.index hversion
  exact ⟨hhas, by omega⟩

/-- **Where a method goes.** A planned method that leads to `p` goes to `p` itself, or to a method
    of the version that follows that leads to `p` too. -/
theorem Linked.planned_target (h : c.Linked count) {w : View} (hw : w.chain = c) {m p : MethodId}
    (hm : m.index < c.methods.size) (hpublic : (c.method m).version.index + 1 < count)
    (hp : (c.method m).link.final = some p) {plan : MethodPlan}
    (hplan : w.Planned (c.method m) plan) :
    ∃ t : MethodId, t.index < c.methods.size ∧ plan.target = (c.method t).name ∧
      (plan.route = .toPrivate ∧ t = p ∧ (c.method t).version.index + 1 = count ∨
        plan.route = .toNext ∧ (c.method t).version.index = (c.method m).version.index + 1 ∧
          (c.method t).version.index + 1 < count ∧ (c.method t).link.final = some p) := by
  obtain ⟨t, ht, -, rfl⟩ := hplan.exists_target
  obtain ⟨hroute, hway⟩ | ⟨hroute, hway⟩ := w.way_cases (c.method m)
  · obtain rfl : t = p := Option.some.inj (ht.symm.trans (hway.trans hp))
    obtain ⟨hlt, hversion⟩ := h.method_final hm hpublic hp
    exact ⟨t, hlt, by rw [hw]; rfl, .inl ⟨hroute, rfl, hversion⟩⟩
  · obtain ⟨hlt, hversion, hbefore, hfinal⟩ := h.method_next hm hpublic (hway.symm.trans ht)
    exact ⟨t, hlt, by rw [hw]; rfl, .inr ⟨hroute, hversion, by omega, hfinal.symm.trans hp⟩⟩

/-! ### All hops -/

/-- **Correspondence commutes with the private links.** If every method of every public version
    corresponds to its target, every one commutes. -/
theorem Linked.commutes (h : c.Linked count)
    (hall : ∀ m : MethodId, m.index < c.methods.size → (c.method m).version.index + 1 < count →
      c.Corresponds (c.version (c.method m).version) m)
    {m : MethodId} (hm : m.index < c.methods.size)
    (hpublic : (c.method m).version.index + 1 < count) : ∃ p, c.Commutes m p := by
  -- by the distance to the private version
  induction hd : count - (c.method m).version.index using Nat.strongRecOn generalizing m with
  | ind d ih =>
    have hwf := h.framed.wellFormed
    obtain ⟨hinputLt, hinputVersion⟩ := hwf.input_behind hm
    obtain ⟨houtputLt, houtputVersion⟩ := hwf.output_behind hm
    obtain ⟨t, htarget, hcheck⟩ := hall m hm hpublic
    obtain ⟨hroute, hway⟩ | ⟨hroute, hway⟩ :=
      (c.viewOf (c.version (c.method m).version)).way_cases (c.method m)
    · rw [hway] at htarget
      rw [hroute] at hcheck
      obtain ⟨hinput, houtput⟩ := checkTypes_toPrivate hcheck
      exact ⟨t, htarget, hinput, houtput⟩
    · rw [hway] at htarget
      rw [hroute] at hcheck
      obtain ⟨ht, hversion, hlt, hfinal⟩ := h.method_next hm hpublic htarget
      obtain ⟨p, hp⟩ := ih _ (by omega) ht (by omega) rfl
      obtain ⟨hinput, houtput⟩ := checkTypes_toNext hcheck
      refine ⟨p, hfinal.trans hp.final, ?_, ?_⟩
      · exact (h.message_final hinputLt (by omega) hinput).trans hp.input
      · split at houtput
        · rw [hp.final] at houtput
          exact houtput
        · exact (h.message_final houtputLt (by omega) houtput).trans hp.output

end Chain

/-! ### Version plans -/

/-- What a version plan writes and reads of the private version are types of private methods. -/
structure VersionPlan.EndsIn (c : Chain) (v : Version) (vp : VersionPlan) : Prop where
  /-- Every method commutes. -/
  methods : ∀ m ∈ v.methods, ∃ p, c.Commutes m p
  /-- A deprecated input is written into a field of the private request, for which there is a
      setter. -/
  inputs : ∀ mp ∈ vp.methods, ∃ p, c.Commutes mp.method p ∧ ∀ i ∈ mp.deprecatedInputs,
    (∃ f ∈ (c.message (c.method p).input).fields, (c.field f).name = i.privateField) ∧
      View.HasSetter vp.mutators (c.method p).input i.privateField
  /-- A mutator writes fields of the private request of a method. -/
  mutators : ∀ k ∈ vp.mutators, ∃ m ∈ v.methods, ∃ p, c.Commutes m p ∧
    k.message = (c.method p).input ∧
      ∀ s ∈ k.setters, ∃ f ∈ (c.message k.message).fields, (c.field f).name = s.field
  /-- A converter that leads up to the response of a method reads the private response. -/
  responses : ∀ m ∈ v.methods, ∃ p, c.Commutes m p ∧ ∀ n x, (n, .message x) ∈ vp.converters →
    x.message = (c.method m).output →
      (x.shape = .upFromNext → x.privateMessage = some (c.method p).output) ∧
        (x.shape = .upFromPrivate → x.counterpart = (c.method p).output)

/-- The private field of a deprecated input belongs to the private counterpart of the request. -/
theorem Chain.Linked.deprecatedFields {c : Chain} {count : Nat} (h : c.Linked count)
    {w : View} (hw : w.chain = c) {m p : MessageId}
    (hpublic : (c.message m).version.index + 1 < count)
    (hp : (c.message m).link.final = some p) {x : Field × FieldId}
    (hx : x ∈ w.deprecatedFields m) : x.2 ∈ (c.message p).fields := by
  obtain ⟨id, hid, -, ht⟩ := View.mem_deprecatedFields hx
  rw [hw] at hid ht
  obtain ⟨q, hq, hmem⟩ := h.field_final hid hpublic hp
  obtain rfl := Option.some.inj (ht.symm.trans hq)
  exact hmem

namespace Plan

variable {plan : Plan}

/-- In a generated plan every public method corresponds to its target, as its version checks. -/
theorem Generated.corresponds (h : plan.Generated) {m : MethodId}
    (hm : m.index < plan.chain.methods.size)
    (hpublic : (plan.chain.method m).version.index + 1 < plan.chain.versions.size) :
    plan.chain.Corresponds (plan.chain.version (plan.chain.method m).version) m := by
  have hlt := Nat.lt_of_succ_lt hpublic
  obtain ⟨vp, -, hok⟩ := h.getElem?_version hlt
  have hprivate := h.linked.framed.isPrivate_eq_false hpublic
  obtain ⟨hplanned, -⟩ := versionPlan_public hok hprivate
  have hmem := (h.linked.framed.wellFormed.mem_methods _ m).mpr ⟨hm, rfl⟩
  obtain ⟨mp, -, hmp⟩ := forall₂_exists_right hplanned hmem
  obtain ⟨t, ht, hcheck, -⟩ := hmp.exists_target
  exact ⟨t, ht, hcheck⟩

/-- Every public method of a generated plan commutes with a private one. -/
theorem Generated.commutes (h : plan.Generated) {v : VersionId} {m : MethodId}
    (hm : m ∈ (plan.chain.version v).methods) (hv : v.index + 1 < plan.chain.versions.size) :
    ∃ p, plan.chain.Commutes m p := by
  obtain ⟨hlt, rfl⟩ := (h.linked.framed.wellFormed.mem_methods v m).mp hm
  exact h.linked.commutes (fun _ => h.corresponds) hlt hv

section
variable {v : VersionId}

/-- The private method that the plan of a method ends in, and where its deprecated inputs go. -/
theorem Generated.inputs_endIn (h : plan.Generated) (hv : v.index + 1 < plan.chain.versions.size)
    {m : MethodId} (hm : m ∈ (plan.chain.version v).methods) {mp : MethodPlan}
    (hplan : (plan.chain.viewOf (plan.chain.version v)).Planned (plan.chain.method m) mp) :
    ∃ p, mp.method = m ∧ mp.input = (plan.chain.method m).input ∧ plan.chain.Commutes m p ∧
      ∀ i ∈ mp.deprecatedInputs, ∃ f ∈ (plan.chain.message (plan.chain.method p).input).fields,
        (plan.chain.field f).name = i.privateField := by
  have hwf := h.linked.framed.wellFormed
  obtain ⟨p, hp⟩ := h.commutes hm hv
  obtain ⟨t, -, -, rfl⟩ := hplan.exists_target
  obtain ⟨hlt, rfl⟩ := (hwf.mem_methods v m).mp hm
  refine ⟨p, hwf.method_id hlt, rfl, hp, fun i hi => ?_⟩
  obtain ⟨x, hx, hinput⟩ := View.mem_deprecatedInputs hi
  obtain ⟨-, hprivateField, -⟩ := View.inputOf_eq_some hinput
  obtain ⟨-, hbehind⟩ := hwf.input_behind hlt
  exact ⟨x.2, h.linked.deprecatedFields rfl (by omega) hp.input (View.mem_skipping hx),
    hprivateField.symm⟩

/-- What a converter of a message that leads up reads of the private version is the private
    counterpart. -/
theorem readsPrivate_of_converter {w : View} {r : Request} {table : Option ReceiveTable}
    {x : MessageConverter} (hok : (w.converter r).result = .ok (.message x, table)) {p : MessageId}
    (hp : (w.chain.message x.message).link.final = some p) :
    (x.shape = .upFromNext → x.privateMessage = some p) ∧
      (x.shape = .upFromPrivate → x.counterpart = p) := by
  obtain ⟨-, hspec⟩ := View.converter_message hok
  constructor
  · intro hshape
    rw [hspec.privateMessage, if_pos (hspec.shape ▸ hshape)]
    exact hp
  · intro hshape
    have hcounterpart := hspec.counterpart
    rw [View.side, if_neg (View.facesNext_of_upFromPrivate (hspec.shape ▸ hshape))] at hcounterpart
    exact Option.some.inj (hcounterpart.symm.trans hp)

/-- The plan of a public version ends in the types of private methods. -/
theorem Generated.endsIn (h : plan.Generated) (hv : v.index + 1 < plan.chain.versions.size)
    {vp : VersionPlan} (hok : versionPlan (.ofChain plan.chain) (plan.chain.version v) = .ok vp) :
    vp.EndsIn plan.chain (plan.chain.version v) := by
  have hprivate := h.linked.framed.isPrivate_eq_false hv
  obtain ⟨hplanned, hmutators, p, hanswered, hconverters⟩ := versionPlan_public hok hprivate
  have hmethod : ∀ mp ∈ vp.methods, ∃ m ∈ (plan.chain.version v).methods, ∃ p,
      mp.method = m ∧ mp.input = (plan.chain.method m).input ∧ plan.chain.Commutes m p ∧
        ∀ i ∈ mp.deprecatedInputs, ∃ f ∈ (plan.chain.message (plan.chain.method p).input).fields,
          (plan.chain.field f).name = i.privateField := by
    intro mp hmp
    obtain ⟨m, hm, hplan⟩ := forall₂_exists_left hplanned hmp
    exact ⟨m, hm, h.inputs_endIn hv hm hplan⟩
  constructor
  case methods => exact fun m hm => h.commutes hm hv
  case inputs =>
    intro mp hmp
    obtain ⟨m, -, p, rfl, hinput, hp, hfields⟩ := hmethod mp hmp
    refine ⟨p, hp, fun i hi => ⟨hfields i hi, ?_⟩⟩
    rw [hmutators]
    exact View.mutators_complete hmp hi (by rw [hinput]; exact hp.input)
  case mutators =>
    intro k hk
    rw [hmutators] at hk
    have hmutates := View.mutators_sound _ _ k hk
    obtain ⟨mp, hmp, hfinal⟩ := hmutates.message
    obtain ⟨m, hm, p, -, hinput, hp, -⟩ := hmethod mp hmp
    rw [hinput] at hfinal
    have hmessage := Option.some.inj (hfinal.symm.trans hp.input)
    refine ⟨m, hm, p, hp, hmessage, fun s hs => ?_⟩
    obtain ⟨mp', hmp', hfinal', i, hi, rfl⟩ := hmutates.setters s hs
    obtain ⟨m', -, p', -, hinput', hp', hfields⟩ := hmethod mp' hmp'
    rw [hinput'] at hfinal'
    rw [Option.some.inj (hfinal'.symm.trans hp'.input)]
    exact hfields i hi
  case responses =>
    intro m hm
    obtain ⟨p, hp⟩ := h.commutes hm hv
    refine ⟨p, hp, fun n x hx houtput => ?_⟩
    rw [hconverters] at hx
    obtain ⟨r, table, -, -, hok, -⟩ := hanswered.tracked.converters _ hx
    refine readsPrivate_of_converter (w := plan.chain.viewOf (plan.chain.version v)) hok ?_
    rw [houtput]
    exact hp.output

end

/-- **Methods and the types they end in.** The plan of every public version of a generated plan
    writes and reads types of the private methods that its methods end in. -/
theorem endsIn_of_generate {set : DescriptorSet} {config : Config}
    (h : generate set config = .ok plan) {v : Version} (hv : v ∈ plan.chain.publicVersions) :
    ∃ vp, plan.versions[v.id.index]? = some vp ∧ vp.EndsIn plan.chain v := by
  have hplan := generated_of_generate h
  obtain ⟨hpublic, heq⟩ := hplan.linked.framed.mem_publicVersions.mp hv
  obtain ⟨vp, hvp, hok⟩ := hplan.getElem?_version (Nat.lt_of_succ_lt hpublic)
  exact ⟨vp, hvp, heq ▸ hplan.endsIn hpublic hok⟩

set_option maxRecDepth 10000 in
/-- The first version of the sample. -/
theorem endsIn_sample : ∃ plan, ∃ v : Version, generate Chain.sampleSet {} = .ok plan ∧
    v ∈ plan.chain.publicVersions ∧ v.methods ≠ [] ∧
      ∃ vp, plan.versions[v.id.index]? = some vp ∧ vp.EndsIn plan.chain v := by
  have hok : (generate Chain.sampleSet {}).toOption.any (fun plan =>
      plan.chain.publicVersions.any fun v => v.id == ⟨0⟩ && !v.methods.isEmpty) = true := by
    decide +kernel
  obtain ⟨plan, hplan, hchecked⟩ := exists_of_toOption_any hok
  simp only [List.any_eq_true, Bool.and_eq_true, Bool.not_eq_true',
    List.isEmpty_eq_false_iff] at hchecked
  obtain ⟨v, hv, -, hmethods⟩ := hchecked
  exact ⟨plan, v, hplan, hv, hmethods, endsIn_of_generate hplan hv⟩

end Plan

end Lineage
