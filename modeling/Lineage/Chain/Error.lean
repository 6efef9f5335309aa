import Lineage.Annotation.Basic

namespace Lineage

/-!
# Why a chain cannot be built
-/

/-- What a declaration has no counterpart for. -/
structure Missing where
  /-- The full name of the declaration. -/
  source : String
  /-- The package that was searched. -/
  package : String
  /-- The name that was looked up there. -/
  target : String
deriving DecidableEq

/-- Why a chain cannot be built. -/
inductive ChainError where
  | privatePackageNotFound (package : String)
  /-- No package apart from the given private one has a service. -/
  | emptyChain (package : String)
  | ambiguousService (package first second : String)
  | privateServiceMissing (package : String)
  /-- Two fields of one message have one counterpart. -/
  | ambiguousDelegate (first second target : String)
  /-- A declaration refers to a type that no version owns. -/
  | typeNotFound (entity type : String)
  | messageNotFound (missing : Missing)
  | fieldNotFound (missing : Missing)
  | oneofNotFound (missing : Missing)
  | methodNotFound (missing : Missing)
  | enumNotFound (missing : Missing)
  | enumValueNotFound (missing : Missing)
  | unreadable (kind : EntityKind) (entity : String) (cause : AnnotationError)
deriving DecidableEq

/-- What was looked up in vain, and where. -/
def Missing.message (kind : String) (m : Missing) : String :=
  kind ++ " " ++ m.source ++ " not found in package " ++ m.package ++ " (looked up '" ++ m.target
    ++ "')"

/-- What is wrong, in words. -/
def ChainError.message : ChainError → String
  | privatePackageNotFound p => "private package '" ++ p ++ "' not found"
  | emptyChain p => "no public service versions found besides private package '" ++ p ++ "'"
  | ambiguousService p first second =>
    "package '" ++ p ++ "' declares more than one service: " ++ first ++ ", " ++ second
  | privateServiceMissing p => "private package '" ++ p ++ "' declares no service"
  | ambiguousDelegate first second target =>
    "fields " ++ first ++ " and " ++ second ++ " both delegate to " ++ target
  | typeNotFound entity type => entity ++ " references unknown type " ++ type
  | messageNotFound m => m.message "message"
  | fieldNotFound m => m.message "field"
  | oneofNotFound m => m.message "oneof"
  | methodNotFound m => m.message "method"
  | enumNotFound m => m.message "enum"
  | enumValueNotFound m => m.message "enum value"
  | unreadable kind entity cause =>
    "invalid annotation on " ++ kind.name ++ " " ++ entity ++ ": " ++ cause.message

end Lineage
