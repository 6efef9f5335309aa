namespace Lineage.Service

/-!
# Statuses

What a service answers in place of a record.
-/

/-- The class of a status. -/
inductive Code where
  | invalidArgument
  | failedPrecondition
  | notFound
  | internal
deriving DecidableEq

/-- A class and a message. -/
structure Status where
  code : Code
  message : String
deriving DecidableEq

namespace Status

/-- The message for a response that an older version cannot represent. -/
def incompatibleResource : String :=
  "A requested resource is not compatible with this API version"

/-- A response that lacks what a version requires is no fault of the request. -/
def incompatible (s : Status) : Status :=
  if s.code == .invalidArgument then ⟨.failedPrecondition, incompatibleResource⟩ else s

/-- Something that must be set is not. -/
def required (name : String) : Status := ⟨.invalidArgument, name ++ " is required"⟩

end Status

end Lineage.Service
