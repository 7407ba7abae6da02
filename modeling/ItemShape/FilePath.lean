/-!
# ItemShape.FilePath

Path texts.

A path is an anchor and pieces between slashes. Empty pieces and dots are idle, they name nothing;
a dot at the very start is an anchor of its own. `names` lists what a path names, `relative?` takes
a base path off the front of another one, `hasExtension` looks at the last name.
-/

namespace ItemShape
namespace FilePath

/-! ## Pieces -/

def splitSlash : List Char → List (List Char)
  | [] => [[]]
  | c :: rest =>
    if c = '/' then [] :: splitSlash rest
    else
      match splitSlash rest with
      | [] => [[c]]
      | piece :: pieces => (c :: piece) :: pieces

/-- What stands between the slashes, at least one piece. -/
def pieces (path : String) : List String :=
  (splitSlash path.toList).map String.ofList

def ofPieces (pieces : List String) : String :=
  String.intercalate "/" pieces

/-- The piece names nothing. -/
def isIdle (piece : String) : Bool :=
  piece.isEmpty || piece == "."

/-- Entries of directories have names of at most 255 bytes. -/
def isTooLongName (name : String) : Bool :=
  decide (255 < name.utf8ByteSize)

/-- Paths that are followed have at most 4095 bytes. -/
def isTooLong (path : String) : Bool :=
  decide (4095 < path.utf8ByteSize)

def dropIdleEnd (pieces : List String) : List String :=
  (pieces.reverse.dropWhile isIdle).reverse

/-- Where a path starts: at the root, at a leading dot, or at its first piece. -/
inductive Anchor where
  | root
  | here
  | free
  deriving DecidableEq

/-- A path as its anchor and the pieces after it. -/
def anchored (path : String) : Anchor × List String :=
  match pieces path with
  | "" :: first :: rest => (.root, first :: rest)
  | "." :: rest => (.here, rest)
  | all => (.free, all)

/-! ## Names -/

/-- What a path names, from the anchor on. -/
def names (path : String) : List String :=
  (anchored path).2.filter (fun piece => !isIdle piece)

/-- Order of lists of names, name by name. -/
def namesLe : List String → List String → Bool
  | [], _ => true
  | _ :: _, [] => false
  | a :: as, b :: bs => if a = b then namesLe as bs else decide (a < b)

/-- Path of the entry `name` of a directory. -/
def child (directory name : String) : String :=
  match directory.toList.getLast? with
  | none | some '/' => directory ++ name
  | some _ => directory ++ "/" ++ name

/-- What follows the last dot of a name, unless nothing stands before that dot. -/
def extension? (name : String) : Option String :=
  let reversed := name.toList.reverse
  match reversed.dropWhile (· != '.') with
  | _ :: _ :: _ =>
    if name = ".." then none
    else some (String.ofList (reversed.takeWhile (· != '.')).reverse)
  | _ => none

/-- The last name of the path has this extension. -/
def hasExtension (extension path : String) : Bool :=
  ((names path).getLast?.bind extension?) == some extension

/-! ## Relative paths -/

/-- The pieces after those that name `names`, if they start with these names. -/
def dropNames : List String → List String → Option (List String)
  | [], pieces => some pieces
  | _ :: _, [] => none
  | name :: names, piece :: pieces =>
    if isIdle piece then dropNames (name :: names) pieces
    else if piece = name then dropNames names pieces
    else none

/-- The path without the idle pieces at its end. -/
def trimEnd (path : String) : String :=
  match anchored path with
  | (.root, pieces) => "/" ++ ofPieces (dropIdleEnd pieces)
  | (.here, pieces) => ofPieces ("." :: dropIdleEnd pieces)
  | (.free, pieces) => ofPieces (dropIdleEnd pieces)

/-- What is left of a path after the names of a base path that it starts with. Idle pieces are left
out at both ends and kept between the names. -/
def relative? (base path : String) : Option String :=
  let start := anchored base
  let whole := anchored path
  if start.1 = .free ∧ names base = [] then some (trimEnd path)
  else if start.1 = whole.1 then
    match dropNames (names base) whole.2 with
    | some rest => some (ofPieces (dropIdleEnd (rest.dropWhile isIdle)))
    | none => none
  else none

end FilePath
end ItemShape
