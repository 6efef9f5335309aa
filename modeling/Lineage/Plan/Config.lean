import Lineage.Annotation.Style
import Lineage.Plan.Path

namespace Lineage

/-!
# Configuration

* `Config` — the settings of a run,
* `Config.ofParameter` — the settings that a parameter such as
  `verbose,private_package=internal,annotations=options` makes.
-/

/-- Why a parameter is refused. -/
inductive ConfigError where
  | unknownParameter (key : String)
  | invalidValue (key value : String)
deriving DecidableEq

/-- What is wrong, in words. -/
def ConfigError.message : ConfigError → String
  | unknownParameter key => "unknown parameter '" ++ key ++ "'"
  | invalidValue key value => "invalid value '" ++ value ++ "' for parameter '" ++ key ++ "'"

/-- The settings of a run. -/
structure Config where
  privatePackage : String := "private"
  annotations : AnnotationStyle := .comments
  verbose : Bool := false
  /-- The directory that units are put in. -/
  outPrefix : String := "service"
deriving DecidableEq

/-- How a style of annotation is spelled. -/
def AnnotationStyle.name : AnnotationStyle → String
  | comments => "comments"
  | options => "options"

/-- The style that is spelled so. -/
def AnnotationStyle.ofName? (name : String) : Option AnnotationStyle :=
  [comments, options].find? (·.name == name)

namespace Config

/-- An entry cut at its first equals sign; without one the value is empty. -/
def keyValue (entry : List Char) : String × String :=
  match Text.cutAt? (· == '=') entry with
  | some (k, v) => (String.ofList k, String.ofList v)
  | none => (String.ofList entry, "")

/-- A value that may not be empty. -/
def nonEmpty (key value : String) (set : String → Config) : Except ConfigError Config :=
  if value.isEmpty then .error (.invalidValue key value) else .ok (set value)

/-- The settings with one entry applied. -/
def apply (c : Config) (entry : String × String) : Except ConfigError Config :=
  let (key, value) := entry
  match key with
  | "verbose" =>
    if value == "" || value == "true" then .ok { c with verbose := true }
    else if value == "false" then .ok { c with verbose := false }
    else .error (.invalidValue key value)
  | "private_package" => nonEmpty key value fun v => { c with privatePackage := v }
  | "annotations" =>
    match AnnotationStyle.ofName? value with
    | some s => .ok { c with annotations := s }
    | none => .error (.invalidValue key value)
  | "out_prefix" => nonEmpty key value fun v => { c with outPrefix := v }
  | _ => .error (.unknownParameter key)

/-- The settings of a parameter: entries between commas, trimmed; empty ones say nothing. -/
def ofParameter (parameter : String) : Except ConfigError Config :=
  let entries := ((Text.pieces ',' parameter.toList).map Text.trimChars).filter (!·.isEmpty)
  (entries.map keyValue).foldlM apply {}

/-- The file of a version's unit. -/
def versionPath (c : Config) (shortName : String) : String :=
  joinPath (joinPath c.outPrefix shortName) "service.rs.txt"

/-- The file of the unit that registers all versions. -/
def registerPath (c : Config) : String := joinPath c.outPrefix "register.rs.txt"

end Config

end Lineage
