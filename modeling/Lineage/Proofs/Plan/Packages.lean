import Lineage.Proofs.Chain.Marked
import Lineage.Proofs.Plan.Generated
import Lineage.Proofs.Sorted

namespace Lineage

/-!
# A version is a package

* `DescriptorSet.packages_nodup` — the packages of a descriptor set have different names,
* `Chain.packages_nodup` — the versions of a chain are packages of different names,
* `Plan.version_eq_of_package` — a version of a generated plan is the only one of its package.
-/

/-! ### Packages of a descriptor set -/

/-- A further part goes to the package of its name. -/
theorem addPart_sorted {packages : List (String × PackageSchema)} (part : PackageSchema)
    (hsorted : packages.Pairwise (·.1 < ·.1)) (hnames : ∀ e ∈ packages, e.2.name = e.1) :
    (addPart packages part).Pairwise (·.1 < ·.1) ∧ ∀ e ∈ addPart packages part, e.2.name = e.1 := by
  refine ⟨Sorted.pairwise_insert hsorted _ _, fun e he => ?_⟩
  obtain rfl | he := Sorted.mem_insert he
  · cases hknown : Sorted.get? packages part.name with
    | none => rfl
    | some known =>
      show known.name = part.name
      exact hnames (part.name, known) (Sorted.mem_of_get? hknown)
  · exact hnames e he

/-- Packages have different names. -/
theorem DescriptorSet.packages_nodup {set : DescriptorSet} {packages : List PackageSchema}
    (h : set.packages = .ok packages) : (packages.map (·.name)).Nodup := by
  obtain ⟨parts, -, h⟩ := bind_eq_ok.mp h
  obtain rfl := pure_eq_ok.mp h
  let Apart (ps : List (String × PackageSchema)) :=
    ps.Pairwise (·.1 < ·.1) ∧ ∀ e ∈ ps, e.2.name = e.1
  have hapart : Apart (parts.foldl addPart []) :=
    List.foldlRecOn (motive := Apart) parts addPart ⟨.nil, by simp⟩
      fun ps hps part _ => addPart_sorted part hps.1 hps.2
  have hnames :
      ((parts.foldl addPart []).map (·.2)).map (·.name) = (parts.foldl addPart []).map (·.1) := by
    rw [List.map_map]
    exact List.map_congr_left fun e he => hapart.2 e he
  rw [hnames]
  exact Sorted.nodup_names hapart.1

namespace Chain

variable {source : AnnotationSource} {c c' : Chain}

/-! ### Versions of a chain -/

/-- A package with its service is the package. -/
theorem withService_name {p : PackageSchema} {v : PackageSchema × ServiceSchema}
    (h : withService p = .ok (some v)) : v.1 = p := by
  obtain ⟨s, -, hs⟩ := map_eq_ok.mp h
  obtain ⟨service, -, rfl⟩ := Option.map_eq_some_iff.mp hs
  rfl

/-- Packages with a service are some of all packages, in their order. -/
theorem filterMap_withService {ps : List PackageSchema}
    {found : List (Option (PackageSchema × ServiceSchema))}
    (h : List.Forall₂ (fun p v => withService p = .ok v) ps found) :
    ((found.filterMap id).map (·.1)).Sublist ps := by
  induction h with
  | nil => exact .slnil
  | @cons p v ps found hv _ ih =>
    cases v with
    | none => simpa using ih.cons p
    | some v =>
      obtain rfl := withService_name hv
      simpa using ih

/-- The versions are packages of different names. -/
theorem orderVersions_nodup {privatePackage : String} {packages : List PackageSchema}
    {versions : List (PackageSchema × ServiceSchema)}
    (h : orderVersions privatePackage packages = .ok versions)
    (hnodup : (packages.map (·.name)).Nodup) :
    (versions.map (·.1.name)).Nodup := by
  unfold orderVersions at h
  split at h
  · cases h
  · rename_i p hfind
    obtain ⟨service, -, h⟩ := bind_eq_ok.mp h
    split at h
    · cases h
    · obtain ⟨candidates, hcandidates, h⟩ := bind_eq_ok.mp h
      have hsub := (filterMap_withService (mapM_eq_ok.mp hcandidates)).map (·.name)
      dsimp only at h
      split at h
      · cases h
      · obtain rfl := Except.ok.inj h
        have hname : p.name = privatePackage := by simpa using List.find?_some hfind
        have hperm := ((stableSort_perm (fun a b : PackageSchema × ServiceSchema =>
          versionOrder a.1.name b.1.name) (candidates.filterMap id)).map (·.1.name))
        rw [List.map_map] at hsub
        -- the public packages are apart since all packages are, and none has the private name
        rw [List.map_append, List.nodup_append]
        refine ⟨hperm.nodup_iff.mpr
          (hsub.nodup (hnodup.sublist (List.filter_sublist.map _))), by simp, ?_⟩
        intro a ha b hb hab
        obtain rfl : b = privatePackage := by simpa [hname] using hb
        have hmem := hsub.subset (hperm.mem_iff.mp ha)
        obtain ⟨q, hq, hqname⟩ := List.mem_map.mp hmem
        have hother := (List.mem_filter.mp hq).2
        simp [hqname, hab] at hother

/-- One more version is that of its package. -/
theorem packages_addVersion {count : Nat} {p : PackageSchema × ServiceSchema}
    (h : addVersion source count c p = .ok c') :
    c'.versions.map (·.package) = (c.versions.map (·.package)).push p.1.name := by
  let Inv (t : Chain) := t.versions.map (·.package) = (c.versions.map (·.package)).push p.1.name
  refine addVersion_preserves Inv ?_ ?_ ?_ ?_ ?_ ?_ h
  · intro node hnode
    simp [Inv, hnode]
  · intro _ _ t t' ht hs
    obtain ⟨deprecated, delegate, -, -, rfl⟩ := addMessage_eq_ok hs
    simpa [Inv, modifyMessage] using ht
  · intro _ _ t t' ht hs
    obtain ⟨deprecated, delegate, xs, -, -, -, rfl⟩ := addEnum_eq_ok hs
    simpa [Inv, modifyMessage] using ht
  · intro _ _ _ t t' ht hs
    obtain ⟨deprecated, delegate, validate, receive, -, -, -, -, rfl⟩ := addOneof_eq_ok hs
    exact ht
  · intro _ _ _ t t' ht hs
    obtain ⟨deprecated, delegate, validate, receive, f, -, -, -, -, -, -, rfl⟩ := addField_eq_ok hs
    exact ht
  · intro _ _ _ t t' ht hs
    obtain ⟨deprecated, delegate, input, output, -, -, -, -, rfl⟩ := addMethod_eq_ok hs
    simpa [Inv, modifyMessage] using ht

/-- The versions of a chain are those of its packages. -/
theorem packages_nodup {privatePackage : String} {packages : List PackageSchema}
    (h : ofPackages source privatePackage packages = .ok c)
    (hnodup : (packages.map (·.name)).Nodup) :
    (c.versions.map (·.package)).toList.Nodup := by
  obtain ⟨versions, declared, linked, hversions, hstages, rfl⟩ := stages_of_ofPackages h
  have hkeep : linked.classify.versions = declared.versions :=
    read_eq hstages.unlinked_eq (·.versions) fun _ => rfl
  let Inv (made : List (PackageSchema × ServiceSchema)) (t : Chain) :=
    t.versions.map (·.package) = (made.map (·.1.name)).toArray
  have hpackages : Inv versions declared := by
    refine foldlM_invariant Inv (by simp [Inv]) (fun made p rest t t' _ ht hadd => ?_)
      hstages.declares
    show t'.versions.map (·.package) = _
    rw [packages_addVersion hadd, ht]
    simp
  rw [hkeep, hpackages]
  exact orderVersions_nodup hversions hnodup

end Chain

/-- **A version is a package**: a version of a plan that is generated is the only one of its
    package. -/
theorem Plan.version_eq_of_package {set : DescriptorSet} {config : Config} {plan : Plan}
    (h : generate set config = .ok plan) {v w : VersionId} (hv : v.index < plan.chain.versions.size)
    (hw : w.index < plan.chain.versions.size)
    (heq : (plan.chain.version v).package = (plan.chain.version w).package) : v = w := by
  simp only [generate, chainOf, ofChain, bind_eq_ok, mapError_eq_ok, pure_eq_ok] at h
  obtain ⟨c, ⟨packages, hpackages, hc⟩, versions, -, rfl⟩ := h
  have hnodup := Chain.packages_nodup hc (DescriptorSet.packages_nodup hpackages)
  have hget (u : VersionId) (hu : u.index < c.versions.size) :
      (c.versions.map (·.package)).toList[u.index]? = some (c.version u).package := by
    rw [Array.getElem?_toList]
    exact getElem?_map_getD hu default _
  refine VersionId.ext ((List.getElem?_inj (by simpa using hv) hnodup).mp ?_)
  rw [hget v hv, hget w hw, heq]

end Lineage
