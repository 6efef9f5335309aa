import Lineage.Plan.Basic
import Lineage.Proofs.Interleaved

namespace Lineage

/-!
# The order of files

What is generated depends on the order of the files of each package, but not on how the files of
different packages are interleaved.

* `addPart_comm` — parts of different packages may be added in either order,
* `DescriptorSet.packages_interleaved` — the packages of a descriptor set,
* `Plan.generate_interleaved` — the plan of a descriptor set.
-/

/-- The package that a file declares its content in: the unnamed one if the file gives none. -/
def FileDescriptor.packageName (f : FileDescriptor) : String := f.package.getD ""

/-- A file contributes to the package that it declares its content in. -/
theorem FileDescriptor.schema_name {f : FileDescriptor} {part : PackageSchema}
    (h : f.schema = .ok part) : part.name = f.packageName := by
  simp only [FileDescriptor.schema, bind_eq_ok, pure_eq_ok] at h
  obtain ⟨_, -, _, -, _, -, rfl⟩ := h
  rfl

/-! ### Packages -/

/-- Parts of different packages do not meet: each is merged into what is known of its
    own package. -/
theorem addPart_comm (packages : List (String × PackageSchema)) (p q : PackageSchema)
    (h : p.name ≠ q.name) :
    addPart (addPart packages p) q = addPart (addPart packages q) p := by
  rw [addPart, addPart, Sorted.get?_insert_ne h.symm, addPart, addPart, Sorted.get?_insert_ne h]
  exact Sorted.insert_comm h.symm _ _ _

/-- **Packages.** Either some file of both sets is refused, or both have the same packages. -/
theorem DescriptorSet.packages_interleaved {set set' : DescriptorSet}
    (h : Interleaved FileDescriptor.packageName set.files set'.files) :
    set.packages = set'.packages ∨
      ∃ e e', set.packages = .error e ∧ set'.packages = .error e' := by
  have hname : ∀ f part, FileDescriptor.schema f = .ok part → part.name = f.packageName :=
    fun f part hf => FileDescriptor.schema_name hf
  rw [packages, packages]
  cases hparts : set.files.mapM FileDescriptor.schema with
  | ok parts =>
    obtain ⟨parts', hparts', hinterleaved⟩ := h.exists_mapM hname hparts
    left
    rw [hparts']
    show Except.ok ((parts.foldl addPart []).map (·.2)) =
      Except.ok ((parts'.foldl addPart []).map (·.2))
    rw [hinterleaved.foldl_eq addPart_comm]
  | error e =>
    cases hparts' : set'.files.mapM FileDescriptor.schema with
    | ok parts' =>
      -- the other set has the same files, so it is refused as well
      obtain ⟨parts, hok, -⟩ := h.symm.exists_mapM hname hparts'
      rw [hok] at hparts
      cases hparts
    | error e' => exact .inr ⟨e, e', rfl, rfl⟩

namespace Plan

/-! ### Plans -/

/-- **The order of files.** Two descriptor sets that have the same files of every package in the
    same order either both have a file that is refused, or have the same result under every
    configuration. -/
theorem generate_interleaved {set set' : DescriptorSet}
    (h : Interleaved FileDescriptor.packageName set.files set'.files) (config : Config) :
    generate set config = generate set' config ∨
      ∃ e e', generate set config = .error (.descriptor e) ∧
        generate set' config = .error (.descriptor e') := by
  rcases DescriptorSet.packages_interleaved h with heq | ⟨e, e', he, he'⟩
  · left
    rw [generate, generate, chainOf, chainOf, heq]
  · right
    refine ⟨e, e', ?_, ?_⟩
    · rw [generate, chainOf, he]
      rfl
    · rw [generate, chainOf, he']
      rfl

/-- The messages of a package, in a file of their own. -/
def messageFile (package : String) : FileDescriptor :=
  { name := package ++ "/messages.proto"
    package
    messages := ["Request", "Response"].map fun name =>
      { name, fields := [{ name := some "id", type := some "TYPE_STRING" }] } }

/-- The service of a package, in a file of its own. -/
def serviceFile (package : String) : FileDescriptor :=
  { name := package ++ "/service.proto"
    package
    services := [{
      name := "Service"
      methods := [{
        name := "Get"
        inputType := package ++ ".Request"
        outputType := package ++ ".Response" }] }] }

/-- Three packages, two of them with names of equal rank: package by package. -/
def grouped : DescriptorSet :=
  { files := ["private", "v01", "v1"].flatMap fun p => [messageFile p, serviceFile p] }

/-- The same files, all messages first and the services in another order. -/
def mingled : DescriptorSet :=
  { files := ["v1", "v01", "private"].map messageFile ++ ["v01", "private", "v1"].map serviceFile }

/-- The files of the sample are interleaved. -/
theorem grouped_mingled : Interleaved FileDescriptor.packageName grouped.files mingled.files := by
  intro k
  have hmessages : ∀ p, (messageFile p).packageName = p := fun _ => rfl
  have hservices : ∀ p, (serviceFile p).packageName = p := fun _ => rfl
  by_cases h : k ∈ ["private", "v01", "v1"]
  · simp only [List.mem_cons, List.not_mem_nil, or_false] at h
    rcases h with rfl | rfl | rfl <;> simp [grouped, mingled, hmessages, hservices]
  · have hnone : ∀ {p}, p ∈ ["private", "v01", "v1"] → (p == k) = false := fun hp =>
      beq_eq_false_iff_ne.mpr fun heq => h (heq ▸ hp)
    simp [grouped, mingled, hmessages, hservices, hnone]

/-- Both orders give a plan, and it is the same one. -/
theorem generate_mingled : Interleaved FileDescriptor.packageName grouped.files mingled.files ∧
    ∃ plan, generate grouped {} = .ok plan ∧ generate mingled {} = .ok plan := by
  refine ⟨grouped_mingled, ?_⟩
  have hok : (generate grouped {}).toOption.isSome = true := by decide +kernel
  obtain ⟨plan, hsome⟩ := Option.isSome_iff_exists.mp hok
  have hplan := toOption_eq_some.mp hsome
  rcases generate_interleaved grouped_mingled {} with heq | ⟨e, -, he, -⟩
  · exact ⟨plan, hplan, heq ▸ hplan⟩
  · rw [hplan] at he
    cases he

end Plan

end Lineage
