import ItemShape.Entries

/-!
# ItemShape.FileTree

Files and directories as values. A `FileTree` is what stands under a path; a `FileView` tells it for
every path.
-/

namespace ItemShape

inductive FileTree where
  | file (content : ByteArray)
  | directory (entries : List (String × FileTree))
  | unreadable (description : String)

/-- What is found under each path. -/
abbrev FileView : Type :=
  String → Option FileTree

namespace FileTree

/-- The node under a list of entry names. -/
def under? (tree : FileTree) : List String → Option FileTree
  | [] => some tree
  | name :: rest =>
    match tree with
    | .directory entries =>
      match Entries.get? name entries with
      | some child => child.under? rest
      | none => none
    | .file _ | .unreadable _ => none

/-- The tree with an entry set in the directory under a list of names. -/
def set (name : String) (node : FileTree) : List String → FileTree → FileTree
  | [], .directory entries => .directory (Entries.insert name node entries)
  | step :: rest, .directory entries =>
    match Entries.get? step entries with
    | some child => .directory (Entries.insert step (set name node rest child) entries)
    | none => .directory entries
  | _, tree => tree

end FileTree

end ItemShape
