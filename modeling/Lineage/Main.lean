import Lineage.Command.Run

/-!
The command line: arguments, files and streams are handed to the library, and what it answers is
written out.  Diagnostics go to the error stream.
-/

namespace Lineage.Command

/-- Everything that a stream still holds. -/
partial def readAll (stream : IO.FS.Stream) (acc : ByteArray) : IO ByteArray := do
  let more ← stream.read 65536
  if more.isEmpty then return acc else readAll stream (acc ++ more)

/-- An artifact in its file below a directory. -/
def writeArtifact (base : String) (a : Generated.Artifact) : IO Unit := do
  let path := Files.Path.ofText a.name
  let (entered, stop) := Files.walk [] path.parent
  let inside (p : Files.Place) : String := base ++ "/" ++ p.text
  if path.absolute then throw (IO.userError ("failed to write " ++ a.name))
  for p in entered do IO.FS.createDirAll (inside p)
  match stop, path.file with
  | some directory, some name => IO.FS.writeFile (inside (name :: directory)) a.content
  | _, _ => throw (IO.userError ("failed to write " ++ a.name))

/-- Files written for a descriptor set. -/
def generateFiles (a : Arguments) (path : Files.Path) : IO Unit := do
  if path.lastName?.isNone then throw (IO.userError "the descriptor set path has no file name")
  let text ← IO.FS.readFile path.text
  match a.artifacts text with
  | .error e => throw (IO.userError e.message)
  | .ok artifacts =>
    if a.directory.isEmpty then throw (IO.userError "the output directory has no name")
    IO.FS.createDirAll a.directory
    for artifact in artifacts do writeArtifact a.directory artifact

/-- The request on the input stream answered on the output stream. -/
def answerRequest : IO Unit := do
  let input ← readAll (← IO.getStdin) .empty
  match Exchange.Request.ofBytes? input.toList with
  | none => throw (IO.userError "failed to decode the request")
  | some request =>
    let response := request.respond
    let output ← IO.getStdout
    output.write ⟨response.toBytes.toArray⟩
    output.flush
    match response.error with
    | some message => throw (IO.userError message)
    | none => return ()

/-- How the program is called. -/
def usage : String :=
  "Usage: protoc-gen-svc [--descriptor-set <FILE>] [--private-package <PACKAGE>]\n"
    ++ "         [--annotations <comments|options>] [--out-dir <DIRECTORY>]\n"
    ++ "         [--out-prefix <PATH>] [-v|--verbose]"

/-- The exit code of a run. -/
def exitCode (run : IO Unit) : IO UInt32 := do
  try
    run
    return 0
  catch e =>
    IO.eprintln (toString e)
    return 1

end Lineage.Command

open Lineage Command in
/-- Generates files or answers a request, as the arguments say. -/
def main (arguments : List String) : IO UInt32 := do
  match Invocation.ofArguments? arguments with
  | none =>
    IO.eprintln usage
    return 2
  | some .help =>
    IO.println usage
    return 0
  | some .version =>
    IO.println "protoc-gen-svc 0.1.0"
    return 0
  | some (.run a) =>
    match a.descriptorSet with
    | some path => exitCode (generateFiles a (Files.Path.ofText path))
    | none => exitCode answerRequest
