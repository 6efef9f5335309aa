import Lineage.Chain.Order
import Lineage.Chain.Propagation
import Lineage.Chain.Resolve

namespace Lineage.Chain

/-!
# The chain of a list of packages

* `orderVersions` — the packages with a service, in the order of their names, the private one last,
* `ofPackages` — the chain of the packages: declared, linked and classified.
-/

/-- The service of a package; it may have at most one. -/
def serviceOf (p : PackageSchema) : Except ChainError (Option ServiceSchema) :=
  match p.services with
  | [] => .ok none
  | [s] => .ok (some s)
  | a :: b :: _ => .error (.ambiguousService p.name a.name b.name)

/-- A package with its service, if it has one. -/
def withService (p : PackageSchema) : Except ChainError (Option (PackageSchema × ServiceSchema)) :=
  (serviceOf p).map fun s => s.map (p, ·)

/-- The versions of a chain.  Packages without a service are no versions. -/
def orderVersions (privatePackage : String) (packages : List PackageSchema) :
    Except ChainError (List (PackageSchema × ServiceSchema)) := do
  match packages.find? (·.name == privatePackage) with
  | none => throw (.privatePackageNotFound privatePackage)
  | some p =>
    match ← serviceOf p with
    | none => throw (.privateServiceMissing p.name)
    | some service =>
      let candidates ← (packages.filter (·.name != privatePackage)).mapM withService
      let versions := candidates.filterMap id
      if versions.isEmpty then throw (.emptyChain privatePackage)
      return stableSort (fun a b => versionOrder a.1.name b.1.name) versions ++ [(p, service)]

/-- The chain of the packages of a descriptor set. -/
def ofPackages (source : AnnotationSource) (privatePackage : String)
    (packages : List PackageSchema) : Except ChainError Chain := do
  let versions ← orderVersions privatePackage packages
  let declared ← versions.foldlM (addVersion source versions.length) {}
  let linked ← declared.inheritDeprecation.resolve
  return linked.classify

end Lineage.Chain
