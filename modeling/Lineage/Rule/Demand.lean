import Lineage.Rule.Basic

namespace Lineage

/-!
# Which messages are validated

* `MessageSet` — a set of messages of a chain,
* `Chain.demanding` — the messages that require validation: requests, responses, messages with a
  constraint, and messages with a field of such a type,
* `Chain.validated` — the messages that get a validator: requests, messages no method uses, and
  messages that require validation and are the type of a field of a validated message.

Both are least sets closed under a step; a chain has too few messages for the step to add one more
often than there are messages.
-/

/-- A set of messages, one mark per position. -/
structure MessageSet where
  marks : Array Bool
deriving DecidableEq

namespace MessageSet

/-- Whether a message is in the set; what has no position is not. -/
def contains (s : MessageSet) (m : MessageId) : Bool := s.marks.getD m.index false

/-- The set with one message more. -/
def insert (s : MessageSet) (m : MessageId) : MessageSet := ⟨s.marks.setIfInBounds m.index true⟩

/-- The messages of a chain that satisfy a predicate. -/
def ofChain (c : Chain) (p : Message → Bool) : MessageSet := ⟨c.messages.map p⟩

end MessageSet

/-- A function applied a number of times. -/
def iterate (step : α → α) : Nat → α → α
  | 0, a => a
  | n + 1, a => iterate step n (step a)

namespace Chain

/-- The messages of the chain that a field of a message has as its type. -/
def nestedMessages (c : Chain) (m : Message) : List MessageId :=
  m.fields.filterMap fun f =>
    match (c.field f).typeRef with
    | some (.message nested) => some nested
    | _ => none

/-- Whether a message requires validation for its own sake. -/
def demandsItself (c : Chain) (m : Message) : Bool :=
  m.isInput || m.isOutput || m.fields.any (fun f => (c.field f).validate.isDeclared)
    || m.oneofs.any (fun o => (c.oneof o).required)

/-- Every message with a field whose type is in the set. -/
def addHolders (c : Chain) (s : MessageSet) : MessageSet :=
  c.messages.foldl
    (fun s m => if (c.nestedMessages m).any s.contains then s.insert m.id else s) s

/-- The messages that require validation. -/
def demanding (c : Chain) : MessageSet :=
  iterate c.addHolders c.messages.size (.ofChain c c.demandsItself)

/-- Whether a message gets a validator for its own sake. -/
def isRoot (m : Message) : Bool := m.isInput || !m.isOutput

/-- Every type of a field of a message in the set, if it requires validation. -/
def addNested (c : Chain) (demanding : MessageSet) (s : MessageSet) : MessageSet :=
  c.messages.foldl
    (fun s m =>
      if s.contains m.id then
        ((c.nestedMessages m).filter demanding.contains).foldl MessageSet.insert s
      else s) s

/-- The messages that get a validator, given those that require validation. -/
def validated (c : Chain) (demanding : MessageSet) : MessageSet :=
  iterate (c.addNested demanding) c.messages.size (.ofChain c isRoot)

end Chain

end Lineage
