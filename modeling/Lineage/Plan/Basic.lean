import Lineage.Chain.Build
import Lineage.Converter.Method
import Lineage.Plan.Config
import Lineage.Rule.Derive
import Lineage.Schema.Ingest

namespace Lineage

/-!
# Plans

* `VersionPlan` — everything generated for one version,
* `Plan` — a chain with the plans of its versions,
* `Plan.ofChain` — the plan of a chain,
* `Plan.generate` — the plan of a descriptor set under a configuration.

The parts are made one after the other, each version's rules before its conversions; the first
failure is the result.
-/

/-- Everything generated for one version. -/
structure VersionPlan where
  version : VersionId
  package : String
  service : String
  /-- The name under which the validator can be replaced. -/
  validatorName : String
  /-- The name under which the converter can be replaced. -/
  converterName : String
  validators : List MessageRules
  /-- By name. -/
  converters : List (String × Converter)
  methods : List MethodPlan
  mutators : List Mutator
  tables : List ReceiveTable
deriving DecidableEq

/-- A chain and the plans of its versions, in its order. -/
structure Plan where
  chain : Chain := {}
  versions : List VersionPlan := []
deriving DecidableEq

/-- Why nothing is generated. -/
inductive GenerateError where
  | config (e : ConfigError)
  | descriptor (e : DescriptorError)
  | chain (e : ChainError)
  | rule (e : RuleError)
  | conversion (e : ConversionError)
deriving DecidableEq

/-- What is wrong, in words. -/
def GenerateError.message : GenerateError → String
  | config e => e.message
  | descriptor e => e.message
  | chain e => e.message
  | rule e => e.message
  | conversion e => e.message

namespace VersionPlan

/-- The name under which the validator of a package can be replaced. -/
def validatorKey (package : String) : String := package ++ ".Validator"

/-- The name under which the converter of a package can be replaced. -/
def converterKey (package : String) : String := package ++ ".Converter"

/-- The converter that a version has under a name. -/
def converter? (v : VersionPlan) (function : String) : Option Converter :=
  Sorted.get? v.converters function

/-- The first validator of a version that has a name. -/
def validator? (v : VersionPlan) (function : String) : Option MessageRules :=
  v.validators.find? (·.function == function)

/-- The first method of a version that has a name. -/
def method? (v : VersionPlan) (name : String) : Option MethodPlan :=
  v.methods.find? (·.name == name)

end VersionPlan

namespace Plan

/-- The plan of a version with a package. -/
def version? (p : Plan) (package : String) : Option VersionPlan :=
  p.versions.find? (·.package == package)

/-- The plan of one version. -/
def versionPlan (d : Rule.Derivation) (v : Version) : Except GenerateError VersionPlan := do
  let validators ← (d.versionRules v.id).mapError .rule
  let conversions ← (d.chain.conversions v).mapError .conversion
  return {
    version := v.id
    package := v.package
    service := v.service
    validatorName := VersionPlan.validatorKey v.package
    converterName := VersionPlan.converterKey v.package
    validators
    converters := conversions.converters
    methods := conversions.methods
    mutators := conversions.mutators
    tables := conversions.tables }

/-- The plan of a chain. -/
def ofChain (c : Chain) : Except GenerateError Plan := do
  let versions ← c.versions.toList.mapM (versionPlan (.ofChain c))
  return { chain := c, versions }

/-- The chain of a descriptor set under a configuration. -/
def chainOf (set : DescriptorSet) (config : Config) : Except GenerateError Chain := do
  let packages ← set.packages.mapError .descriptor
  (Chain.ofPackages config.annotations.source config.privatePackage packages).mapError .chain

/-- The plan of a descriptor set under a configuration. -/
def generate (set : DescriptorSet) (config : Config) : Except GenerateError Plan := do
  ofChain (← chainOf set config)

end Plan

end Lineage
