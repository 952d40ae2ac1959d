import ResourceSchema.CommandLine.Outcome

/-!
# The program

Reads the directory of descriptions, and prints or writes what the invocation comes to.
-/

namespace ResourceSchema.CommandLine

/-- What an operation on files fails with. -/
def faultOf : IO.Error → FileFault
  | .inappropriateType .. => .notADirectory
  | .noFileOrDirectory .. => .notFound
  | _ => .notFound

/-- The files of a directory with their bytes. -/
def readDirectory (path : String) : IO (Except FileFault FileTree) := do
  try
    let directory ← IO.FS.realPath path
    let mut entries := []
    for entry in ← directory.readDir do
      let isFile := (← entry.path.metadata).type matches .file
      if isFile && hasJsonExtension entry.fileName then
        entries := (entry.fileName, FileTree.file (← IO.FS.readBinFile entry.path)) :: entries
    return .ok (.directory entries)
  catch error => return .error (faultOf error)

/-- Reports a failure. -/
def fail (message : String) : IO UInt32 := do
  IO.eprintln ("Error: " ++ message)
  return 1

/-- Prints or writes an outcome, and gives the exit status. -/
def Outcome.perform : Outcome → IO UInt32
  | print text => do
    IO.print text
    return 0
  | write path text => do
    try
      IO.FS.writeFile path text
      return 0
    catch _ => CommandLine.fail (writeFailure path)
  | fail message => CommandLine.fail message

/-- How the program is used. -/
def usage : String :=
  "usage: oxide-resource [-r DIRECTORY] [-v] migrate [-o FILE] | order | inspect | " ++
  "query RESOURCE [--id ID] [--fields NAMES] [--page NUMBER] [--page-size SIZE]"

end ResourceSchema.CommandLine

open ResourceSchema ResourceSchema.CommandLine in
/-- The program. -/
def main (arguments : List String) : IO UInt32 := do
  match Invocation.read (← IO.getEnv "OXIDE_RESOURCES_DIR") arguments with
  | .error .version =>
    IO.print version
    return 0
  | .error .help =>
    IO.println usage
    return 0
  | .error .usage =>
    IO.eprintln usage
    return 2
  | .ok invocation =>
    let found ← readDirectory invocation.directory
    (invocation.run (loadFrom invocation.directory found)).perform
