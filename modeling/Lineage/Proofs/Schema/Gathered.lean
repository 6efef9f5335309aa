import Lineage.Proofs.Plan.FileOrder
import Lineage.Proofs.Plan.Packages
import Mathlib.Data.List.Induction

namespace Lineage

/-!
# Packages are gathered from files

A package has what the files that declare it have, file by file.

* `gathered` — what some parts say of a package, `get?_foldl_addPart` — what is known of it after
  they are added,
* `PackageSchema.Gathers` — a package of some files, `DescriptorSet.packages_gather` — of a
  descriptor set.
-/

/-- What some parts say of the package of a name, one after the other. -/
def gathered (name : String) (parts : List PackageSchema) : PackageSchema :=
  let own := parts.filter (·.name == name)
  { name
    services := own.flatMap (·.services)
    messages := own.flatMap (·.messages)
    enums := own.flatMap (·.enums) }

@[simp] theorem gathered_name (name : String) (parts : List PackageSchema) :
    (gathered name parts).name = name := rfl

/-- A name that no part has gathers nothing. -/
theorem gathered_of_absent {name : String} {parts : List PackageSchema}
    (h : ∀ part ∈ parts, part.name ≠ name) :
    gathered name parts = { name } := by
  have hnone : parts.filter (·.name == name) = [] := by simpa using h
  rw [gathered, hnone]
  rfl

/-- One part more is merged into its package. -/
theorem gathered_concat (name : String) (parts : List PackageSchema) (part : PackageSchema) :
    gathered name (parts ++ [part]) =
      if part.name = name then (gathered name parts).merge part else gathered name parts := by
  split
  · rename_i h
    simp [gathered, PackageSchema.merge, List.filter_append, h]
  · rename_i h
    simp [gathered, List.filter_append, h]

/-- Parts that are added one after the other are gathered by their names. -/
theorem get?_foldl_addPart (parts : List PackageSchema) (name : String) :
    Sorted.get? (parts.foldl addPart []) name =
      if ∃ part ∈ parts, part.name = name then some (gathered name parts) else none := by
  -- from the end, since a part is merged into what is known from those before it
  induction parts using List.reverseRecOn generalizing name with
  | nil => simp
  | append_singleton parts part ih =>
    have hknown : (Sorted.get? (parts.foldl addPart []) part.name).getD { name := part.name } =
        gathered part.name parts := by
      rw [ih]
      split
      · rfl
      · rename_i h
        rw [gathered_of_absent (by simpa using h)]
        rfl
    rw [List.foldl_concat, addPart, hknown, Sorted.get?_insert, gathered_concat, ih]
    by_cases h : name = part.name
    · subst h
      simp
    · simp [h, Ne.symm h]

/-- A package that has what some files declare in it, one after the other, and nothing else. -/
def PackageSchema.Gathers (p : PackageSchema) (files : List FileDescriptor) : Prop :=
  ∃ parts, List.Forall₂ (fun f part => f.schema = .ok part)
    (files.filter (·.packageName == p.name)) parts ∧
    p.services = parts.flatMap (·.services) ∧ p.messages = parts.flatMap (·.messages) ∧
    p.enums = parts.flatMap (·.enums)

/-- **Packages.** If every file of a descriptor set can be read, each contributes to the package
    that it declares its content in. -/
theorem DescriptorSet.packages_gather {set : DescriptorSet}
    (h : ∀ f ∈ set.files, ∃ part, f.schema = .ok part) :
    ∃ packages, set.packages = .ok packages ∧
      ∀ f ∈ set.files, ∃ p ∈ packages, p.name = f.packageName ∧ p.Gathers set.files := by
  obtain ⟨parts, hparts⟩ := exists_forall₂ h
  refine ⟨_, bind_eq_ok.mpr ⟨parts, mapM_eq_ok.mpr hparts, rfl⟩, fun f hf => ?_⟩
  obtain ⟨part, hpart, hschema⟩ := forall₂_exists_right hparts hf
  have hname : part.name = f.packageName := FileDescriptor.schema_name hschema
  have hget : Sorted.get? (parts.foldl addPart []) f.packageName =
      some (gathered f.packageName parts) := by
    rw [get?_foldl_addPart, if_pos ⟨part, hpart, hname⟩]
  refine ⟨_, List.mem_map_of_mem (Sorted.mem_of_get? hget), rfl, _, ?_, rfl, rfl, rfl⟩
  exact List.rel_filter (fun g q hq => by simp [FileDescriptor.schema_name hq]) hparts

end Lineage
