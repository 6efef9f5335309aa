import Lineage.Service.Converter
import Lineage.Service.Validator

namespace Lineage.Service

/-!
# Calls through the chain

* `ValidatorStrategy`, `ConverterStrategy` — what may replace the validator or converter of a
  version,
* `Registry` — a plan with the strategies that replace the generated ones,
* `Backend`  — the implementation behind the private version, with a state of its own,
* `Registry.call` — a call of a method of some version.

A public version validates its request, converts it down, hands it to the next version, or to the
private one, and converts the response up.  Deprecated inputs skip the versions in between: they
are converted to private values and written into the private request when the call gets there.
-/

/-! ### Strategies -/

/-- A validator, given the generated one. -/
structure ValidatorStrategy where
  validate : Validator → String → Record → Except Status Unit := Validator.validate

/-- A converter, given the plan of the generated one. -/
structure ConverterStrategy where
  down : VersionPlan → String → Record → Except Status Record := convertDown
  up : VersionPlan → String → Option Record → Record → Except Status Record := convertUp

/-- Why a service cannot be assembled. -/
inductive RegistryError where
  /-- No version has a validator or converter of that name. -/
  | unknownOverride (key : String)
  /-- The chain has no version at all. -/
  | missingPrivate
deriving DecidableEq

/-- What is wrong, in words. -/
def RegistryError.message : RegistryError → String
  | unknownOverride key => "no generated validator or converter is registered as '" ++ key ++ "'"
  | missingPrivate => "the service chain has no private version"

/-- A plan with the strategies that replace generated ones, by name. -/
structure Registry where
  plan : Plan
  validators : List (String × ValidatorStrategy) := []
  converters : List (String × ConverterStrategy) := []

namespace Registry

/-- Replace the validator of a name; a later replacement wins. -/
def overrideValidator (r : Registry) (key : String) (s : ValidatorStrategy) :
    Except RegistryError Registry :=
  if r.plan.versions.any (·.validatorName == key) then
    .ok { r with validators := Sorted.insert key s r.validators }
  else .error (.unknownOverride key)

/-- Replace the converter of a name; a later replacement wins. -/
def overrideConverter (r : Registry) (key : String) (s : ConverterStrategy) :
    Except RegistryError Registry :=
  if r.plan.versions.any (·.converterName == key) then
    .ok { r with converters := Sorted.insert key s r.converters }
  else .error (.unknownOverride key)

/-- The validator that a version works with. -/
def validatorOf (r : Registry) (v : VersionPlan) : ValidatorStrategy :=
  (Sorted.get? r.validators v.validatorName).getD {}

/-- The converter that a version works with. -/
def converterOf (r : Registry) (v : VersionPlan) : ConverterStrategy :=
  (Sorted.get? r.converters v.converterName).getD {}

/-- The validator strategy of a version applied to a request. -/
def validate (r : Registry) (v : VersionPlan) (function : String) (request : Record) :
    Except Status Unit :=
  (r.validatorOf v).validate { chain := r.plan.chain, plan := v } function request

end Registry

/-! ### Calls -/

/-- An implementation of the private methods, with a state. -/
structure Backend (σ : Type) where
  call : String → Record → σ → Except Status Record × σ

/-- A private value for a private field. -/
abbrev Mutation := String × Value

/-- What a public method needs to hand a request on. -/
structure Handover where
  down : String
  up : String
  request : Record
  mutations : List Mutation

namespace Registry

/-- The mutations of the deprecated inputs that a request sets. -/
def mutationsOf (v : VersionPlan) (request : Record) (m : MethodPlan) :
    Except Status (List Mutation) := do
  let found ← m.deprecatedInputs.mapM fun i =>
    match request.get? i.field with
    | none => .ok none
    | some value => do return some (i.privateField, ← applyAction v i.action value)
  return found.filterMap fun f => f

/-- A request validated and converted down, with the mutations that go along. -/
def handOver (r : Registry) (v : VersionPlan) (m : MethodPlan) (name : String) (request : Record)
    (mutations : List Mutation) : Except Status Handover := do
  r.validate v m.validate request
  match m.down, m.up with
  | none, _ => throw (internal (name ++ " has no request converter"))
  | _, none => throw (internal (name ++ " has no response converter"))
  | some down, some up =>
    let converted ← (r.converterOf v).down v down request
    let own ← mutationsOf v request m
    return { down, up, request := converted, mutations := mutations ++ own }

/-- A private request with the mutations written into it, validated. -/
def privateRequest (r : Registry) (v : VersionPlan) (m : MethodPlan) (request : Record)
    (mutations : List Mutation) : Except Status Record := do
  let request := mutations.foldl (fun q x => q.set x.1 x.2) request
  r.validate v m.validate request
  return request

/-- The response of a public method, made from the responses behind it. -/
def responseOf (r : Registry) (v : VersionPlan) (m : MethodPlan) (up : String)
    (next final : Record) :
    Except Status Record :=
  ((r.converterOf v).up v up (if m.route == .toNext then some next else none) final).mapError
    Status.incompatible

/-- The method of a version. -/
def methodOf (v : VersionPlan) (name : String) : Except Status MethodPlan :=
  match v.method? name with
  | some m => .ok m
  | none => .error ⟨.notFound, v.service ++ " has no method " ++ name⟩

/-- A call at a version, which may visit so many versions: the version's response and the private
    response that it was made from. -/
def invokeWithin {σ : Type} (r : Registry) (backend : Backend σ) :
    Nat → Nat → String → Record → List Mutation → σ → Except Status (Record × Record) × σ
  | 0, _, _, _, _, state =>
    (.error (internal "the request does not arrive at the private version"), state)
  | visits + 1, index, name, request, mutations, state =>
    match r.plan.versions[index]? with
    | none =>
      (.error (internal "the service chain ended before the private version"), state)
    | some v =>
      match methodOf v name with
      | .error e => (.error e, state)
      | .ok m =>
        if m.route == .backend then
          match r.privateRequest v m request mutations with
          | .error e => (.error e, state)
          | .ok request =>
            let (answer, state) := backend.call m.target request state
            (answer.map fun a => (a, a), state)
        else
          match r.handOver v m name request mutations with
          | .error e => (.error e, state)
          | .ok h =>
            let target := if m.route == .toNext then index + 1 else r.plan.versions.length - 1
            match invokeWithin r backend visits target m.target h.request h.mutations state with
            | (.error e, state) => (.error e, state)
            | (.ok (next, final), state) =>
              ((r.responseOf v m h.up next final).map fun a => (a, final), state)

/-- More visits than any call of a generated plan makes, which visits each version at most once; in
    a plan that lacks the private version a request may come back to where it was. -/
def maxVisits (r : Registry) : Nat := r.plan.versions.length + 1000

/-- The packages served, in the order of the chain. -/
def packages (r : Registry) : List String := r.plan.versions.map (·.package)

/-- A call of a method of a package. -/
def call {σ : Type} (r : Registry) (backend : Backend σ) (package method : String)
    (request : Record) (state : σ) : Except Status Record × σ :=
  match r.plan.versions.findIdx? (·.package == package) with
  | none => (.error ⟨.notFound, "unknown package " ++ package⟩, state)
  | some index =>
    let (answer, state) := r.invokeWithin backend r.maxVisits index method request [] state
    (answer.map (·.1), state)

/-- A registry can serve calls if the chain ends in a private version. -/
def build (r : Registry) : Except RegistryError Registry :=
  if r.plan.chain.versions.isEmpty then .error .missingPrivate else .ok r

end Registry

end Lineage.Service
