import Lineage.Generated.Statement

namespace Lineage.Generated

/-!
# Generated units

* `VersionUnit`  — the functions of one version's unit,
* `RegisterUnit` — the versions that the register unit wires together,
* `versionLines`, `registerLines` — their texts, line by line,
* `artifacts` — all units of a plan with the files they go into, the register unit last.
-/

/-- A text and the file it goes into. -/
structure Artifact where
  name : String
  content : String
deriving DecidableEq

/-- A function with its lines. -/
structure ValidatorFunction where
  function : String
  /-- The validated message. -/
  message : String
  checks : List String
deriving DecidableEq

/-- A converter with its lines. -/
structure ConverterFunction where
  signature : Signature
  body : List Statement
deriving DecidableEq

/-- A method of the service with its lines. -/
structure MethodFunction where
  name : String
  deprecated : Bool
  input : String
  output : String
  steps : List Step
deriving DecidableEq

/-- The setters of a private request message. -/
structure MutatorFunctions where
  message : String
  setters : List Setter
deriving DecidableEq

/-- The functions of one version's unit. -/
structure VersionUnit where
  package : String
  service : String
  isPrivate : Bool
  validatorName : String
  converterName : String
  validators : List ValidatorFunction
  converters : List ConverterFunction
  methods : List MethodFunction
  mutators : List MutatorFunctions
deriving DecidableEq

/-- A version as the register unit names it. -/
structure Registration where
  package : String
  service : String
  validatorName : String
  /-- Absent for the private version. -/
  converterName : Option String
  /-- The package that follows; absent for the private version. -/
  next : Option String
deriving DecidableEq

/-- The versions, oldest first. -/
structure RegisterUnit where
  registrations : List Registration
deriving DecidableEq

/-! ### Units of a plan -/

/-- The validator of a message. -/
def validatorFunction (c : Chain) (m : MessageRules) : ValidatorFunction :=
  { function := m.function, message := (c.message m.message).fullName, checks := checks c m }

/-- The function of a converter. -/
def converterFunction : Converter → ConverterFunction
  | .message m => ⟨messageSignature m, messageBody m⟩
  | .enumeration e => ⟨enumSignature e, enumBody e⟩

/-- The function of a method. -/
def methodFunction (c : Chain) (m : MethodPlan) : MethodFunction :=
  { name := m.name, deprecated := m.deprecated, input := (c.message m.input).fullName
    output := (c.message m.output).fullName, steps := steps m }

/-- The setters of a private request. -/
def mutatorFunctions (m : Mutator) : MutatorFunctions :=
  { message := m.messageName, setters := m.setters }

/-- The unit of a version. -/
def ofVersion (c : Chain) (v : VersionPlan) : VersionUnit :=
  { package := v.package, service := v.service, isPrivate := (c.version v.version).isPrivate
    validatorName := v.validatorName, converterName := v.converterName
    validators := v.validators.map (validatorFunction c)
    converters := v.converters.map fun e => converterFunction e.2
    methods := v.methods.map (methodFunction c)
    mutators := v.mutators.map mutatorFunctions }

/-- A version for the register unit. -/
def registration (c : Chain) (v : VersionPlan) : Registration :=
  let node := c.version v.version
  { package := v.package, service := v.service, validatorName := v.validatorName
    converterName := if node.isPrivate then none else some v.converterName
    next := node.link.next.map fun n => (c.version n).package }

/-! ### Texts -/

/-- The first line of every unit. -/
def banner : String := "// Code generated by protoc-gen-svc. DO NOT EDIT."

/-- Lines indented by so many levels. -/
def indent (levels : Nat) (ls : List String) : List String :=
  ls.map fun l => String.ofList (List.replicate (4 * levels) ' ') ++ l

/-- The lines of a validator. -/
def ValidatorFunction.lines (f : ValidatorFunction) : List String :=
  ["", "    /// Validates `" ++ f.message ++ "`.",
    "    pub fn " ++ f.function ++ "(&self, input: &" ++ f.message
      ++ ") -> Result<(), Status> \x7b"]
    ++ indent 2 (f.checks ++ ["Ok(())"]) ++ ["    \x7d"]

/-- The lines of a converter. -/
def ConverterFunction.lines (f : ConverterFunction) : List String :=
  ["", "    pub " ++ f.signature.text ++ " \x7b"] ++ indent 2 (f.body.map Statement.text)
    ++ ["    \x7d"]

/-- The lines of a method. -/
def MethodFunction.lines (f : MethodFunction) : List String :=
  [""] ++ (if f.deprecated then ["    #[deprecated]"] else [])
    ++ ["    pub fn " ++ f.name ++ "(&self, ctx: &Context, input: " ++ f.input
      ++ ", mut mutations: Mutations) -> Result<" ++ f.output ++ ", Status> \x7b"]
    ++ indent 2 (f.steps.map Step.text) ++ ["    \x7d"]

/-- The lines of the setter of a private field. -/
def setterLines (message : String) (s : Setter) : List String :=
  ["", "    /// Sets `" ++ s.field ++ "` on `" ++ message ++ "`.",
    "    pub fn " ++ s.function ++ "(value: Value) -> Mutation \x7b",
    "        Mutation::new(\"" ++ message ++ "\", \"" ++ s.field ++ "\", value)", "    \x7d"]

/-- A module with its lines. -/
def moduleLines (name : String) (body : List String) : List String :=
  ["pub mod " ++ name ++ " \x7b"] ++ body ++ ["\x7d"]

/-- The name under which a strategy can be replaced. -/
def registeredAs (name : String) : String := "    //! Registered as `" ++ name ++ "`."

/-- The lines of a version's unit. -/
def versionLines (u : VersionUnit) : List String :=
  [banner, "// package: " ++ u.package, "// service: " ++ u.service, ""]
    ++ moduleLines "validator"
      (registeredAs u.validatorName :: u.validators.flatMap ValidatorFunction.lines)
    ++ (if u.isPrivate then [] else "" :: moduleLines "converter"
      (registeredAs u.converterName :: u.converters.flatMap ConverterFunction.lines))
    ++ "" :: moduleLines "service" (u.methods.flatMap MethodFunction.lines)
    ++ (if u.mutators.isEmpty then [] else "" :: moduleLines "mutators"
      (u.mutators.flatMap fun m => m.setters.flatMap (setterLines m.message)))

/-- The lines that put the strategies of a version in place. -/
def strategyLines (r : Registration) : List String :=
  let replace (kind name : String) : String :=
    "    registry." ++ kind ++ "(\"" ++ name ++ "\", overrides." ++ kind ++ "(\"" ++ name ++ "\"));"
  replace "validator" r.validatorName
    :: match r.converterName with
      | some name => [replace "converter" name,
          "    registry.link(\"" ++ r.package ++ "\", \"" ++ r.next.getD "none" ++ "\");"]
      | none => []

/-- The line that registers the service of a version. -/
def serviceLine (r : Registration) : String :=
  "    server.register(\"" ++ r.package ++ "." ++ r.service ++
    "\", registry.service(\"" ++ r.package
    ++ "\")?);"

/-- The lines of the register unit. -/
def registerLines (u : RegisterUnit) : List String :=
  [banner, "", "/// Registers every version of the chain, oldest first. Strategies in",
    "/// `overrides` replace the default validator or converter with the same", "/// key.",
    "pub fn register(server: &mut Server, backend: Backend, overrides: Overrides)"
      ++ " -> Result<(), Status> \x7b",
    "    let mut registry = Registry::new(backend);"]
    ++ u.registrations.flatMap strategyLines ++ u.registrations.map serviceLine
    ++ ["    Ok(())", "\x7d"]

/-! ### Files -/

/-- The register unit of a plan. -/
def registerUnit (p : Plan) : RegisterUnit := ⟨p.versions.map (registration p.chain)⟩

/-- The unit of a version, in its file.  Every line is ended. -/
def versionArtifact (p : Plan) (config : Config) (v : VersionPlan) : Artifact :=
  { name := config.versionPath (p.chain.version v.version).shortName
    content := String.join ((versionLines (ofVersion p.chain v)).map (· ++ "\n")) }

/-- The register unit, in its file.  The last line is not ended. -/
def registerArtifact (p : Plan) (config : Config) : Artifact :=
  { name := config.registerPath, content := "\n".intercalate (registerLines (registerUnit p)) }

/-- All units of a plan. -/
def artifacts (p : Plan) (config : Config) : List Artifact :=
  p.versions.map (versionArtifact p config) ++ [registerArtifact p config]

end Lineage.Generated
