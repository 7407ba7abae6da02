import ItemShape.Command.Run

/-!
# ItemShape.Main

The command line. The files a command looks at are read once, the command answers from these
trees, and then its file is written and its texts are printed.
-/

namespace ItemShape

def usage : String :=
  "Usage: item-schema parse DEFINITION INPUT --mode MODE [--no-fill] [--no-transform]\n" ++
  "                         [--output FILE] [--pretty]\n" ++
  "       item-schema format DEFINITION STORED [--pretty]\n" ++
  "       item-schema lint PATH [--format text|json] [--strict] [--quiet]\n" ++
  "       item-schema --version\n"

/-- An error of the system in the words of the system, with its number. -/
def systemIssue (e : IO.Error) : WriteIssue :=
  match e with
  | .noFileOrDirectory _ code details => .system (describe code details)
  | .inappropriateType _ code details => .system (describe code details)
  | .invalidArgument _ code details => .system (describe code details)
  | .permissionDenied _ code details => .system (describe code details)
  | other => .system (toString other)
where
  describe (code : UInt32) (details : String) : String :=
    details ++ " (os error " ++ toString code ++ ")"

/-- What stands under a path that exists. A directory that is not to be entered, or cannot be
listed, is taken as empty. -/
partial def snapshot (enters : Bool) (place : IO.FS.DirEntry) : IO FileTree := do
  if ← place.path.isDir then
    let inner ← if enters then try place.path.readDir catch _ => pure #[] else pure #[]
    let entries ← inner.toList.mapM fun entry => do
      return (entry.fileName, ← snapshot enters entry)
    return .directory entries
  else
    try
      return .file (← IO.FS.readBinFile place.path)
    catch e =>
      return .unreadable (systemIssue e).message

/-- The paths that exist, with what stands under them. -/
def snapshots (enters : Bool) (paths : List String) : IO (List (String × FileTree)) := do
  let found ← paths.filterMapM fun path => do
    let place : IO.FS.DirEntry := ⟨".", path⟩
    if ← place.path.pathExists then
      return some (path, ← snapshot enters place)
    else
      return none
  return found

/-- The report of a response, after the file is written that it asks for. -/
def carryOut (response : Response) : IO Report := do
  match response with
  | .done report => return report
  | .write path content =>
    try
      IO.FS.writeFile path content
      return response.settle none
    catch e =>
      return response.settle (some (systemIssue e))

/-- Exit code of the command that words give. -/
def execute (words : List String) : IO UInt32 := do
  match Command.read words with
  | .error e =>
    IO.eprint ("error: " ++ e.message ++ "\n\n" ++ usage)
    return 2
  | .ok command =>
    let trees ← snapshots command.entersDirectories command.paths
    let report ← carryOut (command.run (FileView.ofTrees trees))
    IO.print report.output
    IO.eprint report.errors
    return UInt32.ofNat report.code

end ItemShape

def main (words : List String) : IO UInt32 :=
  ItemShape.execute words
