import Lineage.Plan.Config

namespace Lineage.Command

/-!
# Command-line arguments

* `Arguments`  — the options of an invocation,
* `Invocation` — what the arguments ask for,
* `Invocation.ofArguments?` — reads arguments from left to right; absent if they are refused.

An option is given as `--name value` or `--name=value`, and at most once.  No argument stands by
itself.
-/

/-- The options of an invocation, as far as they are given. -/
structure Arguments where
  /-- A file with a descriptor set; without it the program answers a compiler. -/
  descriptorSet : Option String := none
  privatePackage : Option String := none
  annotations : Option AnnotationStyle := none
  /-- The directory that files are written below. -/
  outDir : Option String := none
  /-- The directory inside it that units are put in. -/
  outPrefix : Option String := none
  verbose : Bool := false
deriving DecidableEq

/-- What arguments ask for. -/
inductive Invocation where
  | run (arguments : Arguments)
  | help
  | version
deriving DecidableEq

namespace Arguments

/-- A value that nothing was given for before. -/
def once {α : Type} (before : Option α) (value : α) : Option (Option α) :=
  if before.isSome then none else some (some value)

/-- The arguments with an option given; absent if there is no such option that takes a value, if it
    was given before, or if the value is refused. -/
def give? (a : Arguments) (option value : String) : Option Arguments :=
  match option with
  | "descriptor-set" => (once a.descriptorSet value).map fun v => { a with descriptorSet := v }
  | "private-package" => (once a.privatePackage value).map fun v => { a with privatePackage := v }
  | "annotations" =>
    ((AnnotationStyle.ofName? value).bind (once a.annotations)).map fun v =>
      { a with annotations := v }
  | "out-dir" => (once a.outDir value).map fun v => { a with outDir := v }
  | "out-prefix" => (once a.outPrefix value).map fun v => { a with outPrefix := v }
  | _ => none

/-- The arguments with debug output asked for, which is done at most once. -/
def giveVerbose? (a : Arguments) : Option Arguments :=
  if a.verbose then none else some { a with verbose := true }

/-- The configuration that the arguments make. -/
def config (a : Arguments) : Config where
  privatePackage := a.privatePackage.getD "private"
  annotations := a.annotations.getD .comments
  verbose := a.verbose
  outPrefix := a.outPrefix.getD "service"

end Arguments

namespace Invocation

/-- Short options written together. -/
def short? (a : Arguments) : List Char → Option Invocation
  | [] => some (.run a)
  | 'v' :: rest => a.giveVerbose?.bind fun a => short? a rest
  | 'h' :: _ => some .help
  | 'V' :: _ => some .version
  | _ => none

/-- Whether an argument can be the value of the option before it. -/
def isValue (argument : String) : Bool :=
  match argument.toList with
  | '-' :: _ :: _ => false
  | _ => true

/-- What further arguments add. -/
def read? (a : Arguments) : List String → Option Invocation
  | [] => some (.run a)
  | argument :: rest =>
    match argument.toList with
    | ['-', '-'] => if rest.isEmpty then some (.run a) else none
    | '-' :: '-' :: long =>
      match Text.cutAt? (· == '=') long with
      | some (option, value) =>
        (a.give? (String.ofList option) (String.ofList value)).bind fun a => read? a rest
      | none =>
        match String.ofList long with
        | "verbose" => a.giveVerbose?.bind fun a => read? a rest
        | "help" => some .help
        | "version" => some .version
        | option =>
          match rest with
          | [] => none
          | value :: rest =>
            if isValue value then (a.give? option value).bind fun a => read? a rest else none
    | '-' :: c :: cs =>
      match short? a (c :: cs) with
      | some (.run a) => read? a rest
      | other => other
    | _ => none

/-- What arguments ask for. -/
def ofArguments? (arguments : List String) : Option Invocation := read? {} arguments

end Invocation

end Lineage.Command
