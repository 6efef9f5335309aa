import Lineage.Files.Path
import Lineage.Generated.Unit
import Lineage.Sorted

namespace Lineage.Files

/-!
# File trees

* `Tree` — files and directories below a root,
* `Tree.openDirectory` — makes a directory with all that enclose it,
* `Tree.write`, `Tree.writeAll` — put artifacts below a directory, with the directories that their
  names ask for.

Nothing is written outside the directory that artifacts are put in: a name that is absolute or leads
out of it fails.  What was made before a failure stays.
-/

/-- What is found at a place. -/
inductive Entry where
  | file (content : String)
  | directory
deriving DecidableEq

/-- Files and directories below a root, by their path texts. -/
structure Tree where
  entries : List (String × Entry) := []
deriving DecidableEq

namespace Tree

/-- What is found at a place.  The root is a directory. -/
def entry? (t : Tree) (p : Place) : Option Entry :=
  if p.isEmpty then some .directory else Sorted.get? t.entries p.text

/-- A tree with something put at a place, in place of what was there. -/
def insert (t : Tree) (p : Place) (e : Entry) : Tree :=
  { entries := Sorted.insert p.text e t.entries }

/-- A directory at a place, made if nothing is there. -/
def ensureDirectory (t : Tree) (p : Place) : Option Tree :=
  match t.entry? p with
  | some .directory => some t
  | some (.file _) => none
  | none => if p.head?.all isName then some (t.insert p .directory) else none

/-- Directories at several places, and whether all are there. -/
def ensureAll (t : Tree) : List Place → Tree × Bool
  | [] => (t, true)
  | p :: rest =>
    match t.ensureDirectory p with
    | some t => t.ensureAll rest
    | none => (t, false)

/-- Every directory on the way from a place, and the place where the way ends. -/
def makeWay (t : Tree) (base : Place) (steps : List Step) : Tree × Option Place :=
  let (entered, stop) := walk [] steps
  match t.ensureAll (entered.map (· ++ base)) with
  | (t, true) => (t, stop.map (· ++ base))
  | (t, false) => (t, none)

/-- A directory below the root with all that enclose it.  A text that is empty or holds a zero
    character names no directory. -/
def openDirectory (t : Tree) (text : String) : Tree × Option Place :=
  let path := Path.ofText text
  if path.absolute || text.isEmpty || text.toList.contains '\x00' then (t, none)
  else t.makeWay [] path.steps

/-- A file at a place, unless a directory is there. -/
def writeFile (t : Tree) (p : Place) (content : String) : Option Tree :=
  match t.entry? p with
  | some .directory => none
  | _ => if p.head?.all isName then some (t.insert p (.file content)) else none

/-- An artifact below a place, and whether it could be written. -/
def write (t : Tree) (base : Place) (a : Generated.Artifact) : Tree × Bool :=
  let path := Path.ofText a.name
  if path.absolute then (t, false)
  else
    match t.makeWay base path.parent with
    | (t, none) => (t, false)
    | (t, some directory) =>
      match path.file.bind fun name => t.writeFile (name :: directory) a.content with
      | some t => (t, true)
      | none => (t, false)

/-- Artifacts below a place, up to the first that cannot be written; its name is given. -/
def writeAll (t : Tree) (base : Place) : List Generated.Artifact → Tree × Option String
  | [] => (t, none)
  | a :: rest =>
    match t.write base a with
    | (t, true) => t.writeAll base rest
    | (t, false) => (t, some a.name)

/-- Whether a walk only enters directories that are there. -/
def isWay (t : Tree) (steps : List Step) : Bool :=
  (walk [] steps).1.all fun p => t.entry? p == some .directory

/-- The content of the file that a path names; a separator behind the name does not matter. -/
def read? (t : Tree) (text : String) : Option String :=
  let path := Path.ofText text
  if path.absolute || !t.isWay path.parent then none
  else
    match (walk [] path.parent).2, path.lastName? with
    | some directory, some name =>
      match t.entry? (name :: directory) with
      | some (.file content) => some content
      | _ => none
    | _, _ => none

end Tree

end Lineage.Files
