import Lineage.Plan.Basic
import Lineage.Proofs.Chain.Resolved
import Lineage.Proofs.Converter.Method

namespace Lineage

/-!
# Generated plans

* `Plan.Generated` — a plan whose chain is linked and whose version plans are those of its versions,
* `Plan.generated_of_generate` — every plan that is generated,
* `Plan.Generated.getElem?_eq_some` — the version plan at a position,
* `Plan.PlannedFor`, `Plan.versionPlan_public`, `Plan.versionPlan_private` — what a version plan
  consists of.
-/

namespace Plan

/-- A plan whose chain is linked and whose version plans are those of its versions, in
    their order. -/
structure Generated (plan : Plan) : Prop where
  linked : plan.chain.Linked plan.chain.versions.size
  versions : List.Forall₂ (fun v vp => versionPlan (.ofChain plan.chain) v = .ok vp)
    plan.chain.versions.toList plan.versions

/-- The chain of a plan that is generated is built from packages. -/
theorem ofPackages_of_generate {set : DescriptorSet} {config : Config} {plan : Plan}
    (h : generate set config = .ok plan) : ∃ source privatePackage packages,
      Chain.ofPackages source privatePackage packages = .ok plan.chain := by
  simp only [generate, chainOf, ofChain, bind_eq_ok, mapError_eq_ok, pure_eq_ok] at h
  obtain ⟨c, ⟨packages, -, hc⟩, versions, -, rfl⟩ := h
  exact ⟨_, _, packages, hc⟩

/-- **What is generated** is a plan of a linked chain. -/
theorem generated_of_generate {set : DescriptorSet} {config : Config} {plan : Plan}
    (h : generate set config = .ok plan) : plan.Generated := by
  simp only [generate, chainOf, ofChain, bind_eq_ok, mapError_eq_ok, pure_eq_ok] at h
  obtain ⟨c, ⟨packages, -, hc⟩, versions, hversions, rfl⟩ := h
  exact ⟨Chain.linked_of_ofPackages hc, mapM_eq_ok.mp hversions⟩

namespace Generated

variable {plan : Plan} (h : plan.Generated)
include h

/-- A generated plan has as many versions as its chain. -/
theorem length_versions : plan.versions.length = plan.chain.versions.size := by
  simpa using h.versions.length_eq.symm

/-- The version plan at the position of a version is that of the version. -/
theorem getElem?_version {v : VersionId} (hv : v.index < plan.chain.versions.size) :
    ∃ vp, plan.versions[v.index]? = some vp ∧
      versionPlan (.ofChain plan.chain) (plan.chain.version v) = .ok vp := by
  have hlt : v.index < plan.versions.length := h.length_versions.symm ▸ hv
  refine ⟨plan.versions[v.index], List.getElem?_eq_getElem hlt, ?_⟩
  have hok := h.versions.get (by simpa using hv) hlt
  simpa [Chain.version, Array.getD_eq_getD_getElem?, hv] using hok

/-- A version plan is that of the version at its position. -/
theorem getElem?_eq_some {k : Nat} {vp : VersionPlan} (hk : plan.versions[k]? = some vp) :
    k < plan.chain.versions.size ∧
      versionPlan (.ofChain plan.chain) (plan.chain.version ⟨k⟩) = .ok vp := by
  have hlt : k < plan.chain.versions.size :=
    h.length_versions ▸ (List.getElem?_eq_some_iff.mp hk).1
  obtain ⟨vp', hget, hok⟩ := h.getElem?_version (v := ⟨k⟩) hlt
  obtain rfl := Option.some.inj (hk.symm.trans hget)
  exact ⟨hlt, hok⟩

end Generated

/-! ### Version plans -/

/-- What a version plan consists of, for whatever version. -/
structure PlannedFor (c : Chain) (v : Version) (vp : VersionPlan) : Prop where
  version : vp.version = v.id
  package : vp.package = v.package
  service : vp.service = v.service
  validators : (Rule.Derivation.ofChain c).versionRules v.id = .ok vp.validators

/-- A version plan is made of validators and conversions. -/
theorem versionPlan_eq_ok {c : Chain} {v : Version} {vp : VersionPlan}
    (h : versionPlan (.ofChain c) v = .ok vp) :
    PlannedFor c v vp ∧ ∃ k, c.conversions v = .ok k ∧ vp.converters = k.converters ∧
      vp.methods = k.methods ∧ vp.mutators = k.mutators ∧ vp.tables = k.tables := by
  simp only [versionPlan, bind_eq_ok, mapError_eq_ok, pure_eq_ok] at h
  obtain ⟨validators, hvalidators, k, hk, rfl⟩ := h
  exact ⟨⟨rfl, rfl, rfl, hvalidators⟩, k, hk, rfl, rfl, rfl, rfl⟩

/-- The plan of a public version: its methods are planned, and what they ask for is answered. -/
theorem versionPlan_public {c : Chain} {v : Version} {vp : VersionPlan}
    (h : versionPlan (.ofChain c) v = .ok vp) (hpublic : v.isPrivate = false) :
    List.Forall₂ (fun m plan => (c.viewOf v).Planned (c.method m) plan) v.methods vp.methods ∧
      vp.mutators = (c.viewOf v).mutators vp.methods ∧
      ∃ p, Planner.Answered (c.viewOf v) (c.AsksFor v) { view := c.viewOf v }
        ((v.methods.map c.method).flatMap (c.viewOf v).requestsOf) p ∧
        vp.converters = p.converters := by
  obtain ⟨-, k, hk, hconverters, hmethods, hmutators, -⟩ := versionPlan_eq_ok h
  rw [Chain.conversions, if_neg (by simp [hpublic])] at hk
  rw [hconverters, hmethods, hmutators]
  exact Chain.publicConversions_eq_ok hk

/-- The plan of the private version: its methods call the implementation. -/
theorem versionPlan_private {c : Chain} {v : Version} {vp : VersionPlan}
    (h : versionPlan (.ofChain c) v = .ok vp) (hprivate : v.isPrivate) :
    vp.methods = v.methods.map (fun m => c.backendMethod (c.method m)) ∧ vp.converters = [] ∧
      vp.mutators = [] := by
  obtain ⟨-, k, hk, hconverters, hmethods, hmutators, -⟩ := versionPlan_eq_ok h
  rw [Chain.conversions, if_pos hprivate] at hk
  obtain rfl := Except.ok.inj hk
  exact ⟨hmethods, hconverters, hmutators⟩

/-- The first version plan of a package is that of the first version of the package. -/
theorem Generated.findIdx?_package {plan : Plan} (h : plan.Generated) {package : String}
    {v : Version} (hv : plan.chain.versionOf? package = some v) :
    v.id.index < plan.chain.versions.size ∧ plan.chain.version v.id = v ∧
      plan.versions.findIdx? (·.package == package) = some v.id.index := by
  obtain ⟨hmatch, k, hk, rfl, hbefore⟩ := List.find?_eq_some_iff_getElem.mp hv
  have hlt : k < plan.chain.versions.size := by simpa using hk
  have hversion : plan.chain.version ⟨k⟩ = plan.chain.versions.toList[k] := by
    simp [Chain.version, Array.getD_eq_getD_getElem?, hlt]
  have hid : plan.chain.versions.toList[k].id = ⟨k⟩ := by
    rw [← hversion, h.linked.framed.version_id hlt]
  rw [hid]
  refine ⟨hlt, hversion, ?_⟩
  have hpackage : plan.versions.map (·.package) = plan.chain.versions.toList.map (·.package) := by
    refine List.forall₂_eq_eq_eq ▸ ?_
    rw [List.forall₂_map_left_iff, List.forall₂_map_right_iff]
    exact h.versions.flip.imp fun vp v hok => (versionPlan_eq_ok hok).1.package
  have hfind : (plan.chain.versions.toList.map (·.package)).findIdx? (· == package) = some k := by
    rw [List.findIdx?_map, List.findIdx?_eq_some_iff_getElem]
    exact ⟨hk, hmatch, fun j hj => by simpa using hbefore j hj⟩
  rw [← hpackage, List.findIdx?_map] at hfind
  exact hfind

end Plan

/-! ### Plans of methods -/

namespace Chain

variable {c : Chain}

/-- The methods of each version have different names. -/
def UniqueMethods (c : Chain) : Prop :=
  ∀ v ∈ c.versions.toList, (v.methods.map fun m => (c.method m).name).Nodup

instance : Decidable c.UniqueMethods := inferInstanceAs (Decidable (∀ v ∈ c.versions.toList, _))

/-- What a method is planned as: in the private version it calls the implementation, else it goes to
    a target that corresponds to it. -/
def PlannedAs (c : Chain) (v : Version) (m : MethodId) (plan : MethodPlan) : Prop :=
  v.isPrivate = true ∧ plan = c.backendMethod (c.method m) ∨
    v.isPrivate = false ∧ (c.viewOf v).Planned (c.method m) plan

/-- A method is planned under its name. -/
theorem PlannedAs.name_eq {v : Version} {m : MethodId} {plan : MethodPlan}
    (h : c.PlannedAs v m plan) : plan.name = (c.method m).name := by
  obtain ⟨-, rfl⟩ | ⟨-, hplan⟩ := h
  · rfl
  · obtain ⟨t, -, -, rfl⟩ := hplan.exists_target
    rfl

/-- The methods of a version are planned one by one. -/
theorem plannedAs_of_versionPlan {v : Version} {vp : VersionPlan}
    (h : Plan.versionPlan (.ofChain c) v = .ok vp) :
    List.Forall₂ (c.PlannedAs v) v.methods vp.methods := by
  cases hv : v.isPrivate with
  | true =>
    rw [(Plan.versionPlan_private h hv).1, List.forall₂_map_right_iff]
    exact List.forall₂_same.mpr fun m _ => .inl ⟨hv, rfl⟩
  | false => exact (Plan.versionPlan_public h hv).1.imp fun m plan hplan => .inr ⟨hv, hplan⟩

end Chain

/-- The first entry with the key of an entry is this entry if the keys are different. -/
theorem find?_of_nodup {α β : Type} [BEq β] [LawfulBEq β] {f : α → β} {xs : List α}
    (h : (xs.map f).Nodup) {a : α} (ha : a ∈ xs) : xs.find? (fun x => f x == f a) = some a := by
  induction xs with
  | nil => cases ha
  | cons x xs ih =>
    rw [List.map_cons, List.nodup_cons] at h
    obtain rfl | ha := List.mem_cons.mp ha
    · simp
    · rw [List.find?_cons_of_neg, ih h.2 ha]
      intro heq
      exact h.1 (eq_of_beq heq ▸ List.mem_map_of_mem ha)

/-- **Methods by name.** The method plan found by the name of a method is that of the method, if
    names are different. -/
theorem Plan.Generated.method?_eq {plan : Plan} (h : plan.Generated)
    (hnames : plan.chain.UniqueMethods) {m : MethodId} (hm : m.index < plan.chain.methods.size) :
    ∃ vp mp, plan.versions[(plan.chain.method m).version.index]? = some vp ∧
      vp.method? (plan.chain.method m).name = some mp ∧
      plan.chain.PlannedAs (plan.chain.version (plan.chain.method m).version) m mp := by
  have hwf := h.linked.framed.wellFormed
  have hlt := hwf.method_version_lt hm
  obtain ⟨vp, hvp, hok⟩ := h.getElem?_version hlt
  have hall := Chain.plannedAs_of_versionPlan hok
  obtain ⟨mp, hmp, hplanned⟩ := forall₂_exists_right hall ((hwf.mem_methods _ m).mpr ⟨hm, rfl⟩)
  refine ⟨vp, mp, hvp, ?_, hplanned⟩
  have hsame : vp.methods.map (·.name) =
      (plan.chain.version (plan.chain.method m).version).methods.map
      fun m => (plan.chain.method m).name := by
    refine List.forall₂_eq_eq_eq ▸ ?_
    rw [List.forall₂_map_left_iff, List.forall₂_map_right_iff]
    exact hall.flip.imp fun _ _ hplan => Chain.PlannedAs.name_eq hplan
  have hnodup : (vp.methods.map (·.name)).Nodup := by
    rw [hsame]
    exact hnames _ (Array.mem_toList_iff.mpr
      (Array.mem_of_getElem? (getElem?_eq_some_getD hlt default)))
  rw [VersionPlan.method?, ← hplanned.name_eq]
  exact find?_of_nodup hnodup hmp

end Lineage
