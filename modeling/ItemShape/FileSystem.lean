import ItemShape.FilePath
import ItemShape.FileTree

/-!
# ItemShape.FileSystem

All files, and where paths lead among them.

A `FileSystem` is the tree from the root on, with a working directory. Paths are followed piece by
piece (`walk`), from the working directory or from the root: idle pieces and `..` need a directory to
stand in. `find?` and `write` act on the place that a path leads to.
-/

namespace ItemShape

/-- Why a path leads nowhere, or a file cannot be written under it. -/
inductive WriteIssue where
  | notFound
  | notDirectory
  | isDirectory
  | nameTooLong
  | system (description : String)
  deriving DecidableEq

def WriteIssue.message : WriteIssue → String
  | notFound => "No such file or directory (os error 2)"
  | notDirectory => "Not a directory (os error 20)"
  | isDirectory => "Is a directory (os error 21)"
  | nameTooLong => "File name too long (os error 36)"
  | system description => description

/-- All files and directories from the root on, and the working directory. A place is given by the
names of the entries on the way to it, the nearest one first. -/
structure FileSystem where
  root : FileTree
  current : List String

namespace FileSystem

/-- A tree as the working directory, in a directory for temporary files. Around it are the usual
directories, in which only the null device is known. -/
def around (tree : FileTree) : FileSystem where
  root :=
    .directory (("dev", .directory [("null", .file ByteArray.empty)]) ::
      ("tmp", .directory [("work", tree)]) ::
      ["bin", "boot", "etc", "home", "lib", "media", "mnt", "opt", "proc", "root", "run", "sbin",
        "srv", "sys", "usr", "var"].map (fun name => (name, .directory [])))
  current := ["work", "tmp"]

/-- The tree that paths start in, where all are relative. -/
def ofTree (tree : FileTree) : FileSystem where
  root := tree
  current := []

/-- What is at a place. -/
def at? (system : FileSystem) (place : List String) : Option FileTree :=
  system.root.under? place.reverse

/-- Where a path starts, and the pieces to follow from there. -/
def start (system : FileSystem) (path : String) : List String × List String :=
  match FilePath.pieces path with
  | "" :: rest => ([], rest)
  | pieces => (system.current, pieces)

/-- The place that pieces lead to, or why there is no way. The directory around the root is the root
itself. -/
def walk (system : FileSystem) (place : List String) :
    List String → Except WriteIssue (List String)
  | [] => .ok place
  | piece :: rest =>
    match system.at? place with
    | some (.directory entries) =>
      if FilePath.isIdle piece then walk system place rest
      else if piece = ".." then walk system place.tail rest
      else if FilePath.isTooLongName piece then .error .nameTooLong
      else if Entries.contains piece entries then walk system (piece :: place) rest
      else .error .notFound
    | some _ => .error .notDirectory
    | none => .error .notFound

/-- What stands under a path. The empty path and paths that are too long name nothing. -/
def find? (system : FileSystem) (path : String) : Option FileTree :=
  if path.isEmpty || FilePath.isTooLong path then none
  else
    let start := system.start path
    match system.walk start.1 start.2 with
    | .ok place => system.at? place
    | .error _ => none

/-- Writes the file `name` into the directory at a place. -/
def writeEntry (system : FileSystem) (place : List String) (name : String) (content : ByteArray) :
    Except WriteIssue FileSystem :=
  match system.at? place with
  | some (.directory entries) =>
    if FilePath.isTooLongName name then .error .nameTooLong
    else
      match Entries.get? name entries with
      | some (.directory _) => .error .isDirectory
      | _ =>
        .ok { system with root := FileTree.set name (.file content) place.reverse system.root }
  | some _ => .error .notDirectory
  | none => .error .notFound

/-- The files after one is written: its directory must exist, a file there is replaced. A path that
can only name a directory is refused as one. -/
def write (system : FileSystem) (path : String) (content : ByteArray) :
    Except WriteIssue FileSystem :=
  if path.isEmpty then .error .notFound
  else if FilePath.isTooLong path then .error .nameTooLong
  else
    let start := system.start path
    match start.2.reverse.dropWhile String.isEmpty with
    | [] => .error .isDirectory
    | last :: before =>
      match system.walk start.1 before.reverse with
      | .error issue => .error issue
      | .ok place =>
        match system.at? place with
        | some (.directory _) =>
          if start.2.getLast? = some "" ∨ last = "." ∨ last = ".." then .error .isDirectory
          else system.writeEntry place last content
        | some _ => .error .notDirectory
        | none => .error .notFound

end FileSystem

/-- The view of some trees, each under its own path. Nothing is under a path that is too long. -/
def FileView.ofTrees (trees : List (String × FileTree)) : FileView := fun path =>
  if FilePath.isTooLong path then none
  else
    trees.findSome? fun mount =>
      if mount.1 = path then some mount.2
      else (FilePath.relative? mount.1 path).bind (FileSystem.ofTree mount.2).find?

end ItemShape
