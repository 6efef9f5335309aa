namespace Lineage

/-!
# Positions of nodes

Every node of a chain has a position among the nodes of its kind, in the order in which they were
declared.  Positions of different kinds are different types.
-/

/-- The position of a version, the oldest public version being the first. -/
@[ext] structure VersionId where
  index : Nat
deriving DecidableEq, Inhabited

/-- The position of a message. -/
@[ext] structure MessageId where
  index : Nat
deriving DecidableEq, Inhabited

/-- The position of a field; variants of oneofs are fields too. -/
@[ext] structure FieldId where
  index : Nat
deriving DecidableEq, Inhabited

/-- The position of a oneof. -/
@[ext] structure OneofId where
  index : Nat
deriving DecidableEq, Inhabited

/-- The position of an enum. -/
@[ext] structure EnumId where
  index : Nat
deriving DecidableEq, Inhabited

/-- The position of an enum value. -/
@[ext] structure ValueId where
  index : Nat
deriving DecidableEq, Inhabited

/-- The position of a method. -/
@[ext] structure MethodId where
  index : Nat
deriving DecidableEq, Inhabited

/-- The counterparts of a node: in the version that follows, unless the node bypasses it, and in the
    private version at the end of the chain. -/
structure Link (Id : Type) where
  next : Option Id := none
  final : Option Id := none
deriving DecidableEq, Inhabited

/-- The counterpart across one hop: the next one, or the private one of a node that bypasses. -/
def Link.hop {Id : Type} (l : Link Id) : Option Id := l.next.or l.final

end Lineage
