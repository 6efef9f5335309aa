import Lineage.Command.Arguments
import Lineage.Descriptor.Json
import Lineage.Exchange.Response
import Lineage.Files.Tree

namespace Lineage.Command

/-!
# Runs

* `Arguments.artifacts` — the files made from the text of a descriptor set,
* `run` — an invocation in a file tree: its exit code, its response to a compiler, and the tree it
  leaves.

A run that fails ends with code one, arguments that are refused with code two.
-/

/-- The files made from the text of a descriptor set. -/
def Arguments.artifacts (a : Arguments) (text : String) :
    Except GenerateError (List Generated.Artifact) := do
  match DescriptorSet.ofText? text with
  | none => throw (.descriptor .malformed)
  | some set => return Generated.artifacts (← Plan.generate set a.config) a.config

/-- The directory that files are written below. -/
def Arguments.directory (a : Arguments) : String := a.outDir.getD "."

/-- How a run ends. -/
structure Outcome where
  exit : Nat
  response : Option Exchange.Response := none
  files : Files.Tree

/-- Files written for a descriptor set. -/
def generate (a : Arguments) (path : String) (t : Files.Tree) : Outcome :=
  match t.read? path with
  | none => { exit := 1, files := t }
  | some text =>
    match a.artifacts text with
    | .error _ => { exit := 1, files := t }
    | .ok artifacts =>
      match t.openDirectory a.directory with
      | (t, none) => { exit := 1, files := t }
      | (t, some base) =>
        match t.writeAll base artifacts with
        | (t, failed) => { exit := if failed.isSome then 1 else 0, files := t }

/-- A request answered. -/
def answer (input : Wire.Bytes) (t : Files.Tree) : Outcome :=
  match Exchange.Request.ofBytes? input with
  | none => { exit := 1, files := t }
  | some request =>
    let response := request.respond
    { exit := if response.error.isSome then 1 else 0, response := some response, files := t }

/-- An invocation with some input, in a file tree. -/
def run (arguments : List String) (input : Wire.Bytes) (t : Files.Tree) : Outcome :=
  match Invocation.ofArguments? arguments with
  | none => { exit := 2, files := t }
  | some .help | some .version => { exit := 0, files := t }
  | some (.run a) =>
    match a.descriptorSet with
    | some path => generate a path t
    | none => answer input t

end Lineage.Command
