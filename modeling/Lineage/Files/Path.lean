import Lineage.Text.Blank

namespace Lineage.Files

/-!
# Paths

* `Step`  — one step of a path: into a directory, or out of it,
* `Path`  — the steps of a path text; empty parts and single points are no steps,
* `Place` — a position below some root, by the names that lead to it,
* `walk`  — the places that a path enters, and where it ends.
-/

/-- One step of a path. -/
inductive Step where
  | enter (name : String)
  | up
deriving DecidableEq

/-- A path as written. -/
structure Path where
  absolute : Bool
  steps : List Step
  /-- The name that the path ends in, if it ends in one and in no separator. -/
  file : Option String
deriving DecidableEq

/-- The step that a part of a path stands for. -/
def Step.ofPart? (part : List Char) : Option Step :=
  match part with
  | [] | ['.'] => none
  | ['.', '.'] => some .up
  | cs => some (.enter (String.ofList cs))

namespace Step

/-- The name entered. -/
def name? : Step → Option String
  | enter name => some name
  | up => none

/-- How a step is written. -/
def text : Step → String
  | enter name => name
  | up => ".."

end Step

namespace Path

/-- The path that a text is. -/
def ofText (text : String) : Path :=
  let parts := Text.pieces '/' text.toList
  { absolute := text.toList.head? == some '/'
    steps := parts.filterMap Step.ofPart?
    file := (parts.getLast?.bind Step.ofPart?).bind Step.name? }

/-- The steps that lead to the last one. -/
def parent (p : Path) : List Step := p.steps.dropLast

/-- The path with nothing in it but its steps. -/
def text (p : Path) : String :=
  (if p.absolute then "/" else "") ++ "/".intercalate (p.steps.map Step.text)

/-- The last name of a path, whether or not a separator follows it. -/
def lastName? (p : Path) : Option String := p.steps.getLast?.bind Step.name?

end Path

/-- A position below a root: the names that lead to it, the innermost first. -/
abbrev Place := List String

/-- A place as a path text. -/
def Place.text (p : Place) : String := "/".intercalate p.reverse

/-- The places that a walk enters, in order, and where it ends.  A walk that leaves the root has no
    end. -/
def walk : Place → List Step → List Place × Option Place
  | here, [] => ([], some here)
  | [], .up :: _ => ([], none)
  | _ :: outer, .up :: rest => walk outer rest
  | here, .enter name :: rest =>
    let (entered, stop) := walk (name :: here) rest
    ((name :: here) :: entered, stop)

/-- Names of files and directories are short and hold no zero character. -/
def isName (name : String) : Bool := name.utf8ByteSize ≤ 255 && !name.toList.contains '\x00'

end Lineage.Files
