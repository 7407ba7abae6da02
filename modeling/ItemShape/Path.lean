import ItemShape.Json.Pointer
import ItemShape.Operation

/-!
# ItemShape.Path

Locations inside a parsed item, for errors.

A path is a list of segments. It is shown like a pointer, and the root as a slash. The order of the
segments matters for display only: `==` compares the segments with their multiplicities, and
`digest` combines their hashes so that equal paths have equal digests.
-/

namespace ItemShape

/-- One step: into an attribute or record entry (under its declared name), into a list, or into
the operand of an operation. -/
inductive Segment where
  | member (name : String)
  | index (position : Nat)
  | operation (tag : OpTag)
  deriving DecidableEq

def Segment.display : Segment → String
  | .member name => Pointer.escape name
  | .index position => toString position
  | .operation tag => tag.name

structure ValuePath where
  segments : List Segment

namespace ValuePath

def root : ValuePath :=
  ⟨[]⟩

/-- One segment further; the path itself stays as it is. -/
def extend (path : ValuePath) (segment : Segment) : ValuePath :=
  ⟨path.segments ++ [segment]⟩

def member (path : ValuePath) (name : String) : ValuePath :=
  path.extend (.member name)

def index (path : ValuePath) (position : Nat) : ValuePath :=
  path.extend (.index position)

def operation (path : ValuePath) (tag : OpTag) : ValuePath :=
  path.extend (.operation tag)

def length (path : ValuePath) : Nat :=
  path.segments.length

def isRoot (path : ValuePath) : Bool :=
  path.segments.isEmpty

def display (path : ValuePath) : String :=
  if path.isRoot then "/"
  else String.join (path.segments.map (fun segment => "/" ++ segment.display))

/-- As many segments on both sides, and each segment of the first path as often in the second. -/
def sameSegments (p q : ValuePath) : Bool :=
  p.segments.length == q.segments.length &&
    p.segments.all (fun segment => p.segments.count segment == q.segments.count segment)

instance : BEq ValuePath := ⟨sameSegments⟩

/-- Length and sum of the segment hashes, which do not depend on the order. -/
def digest (segmentHash : Segment → UInt64) (path : ValuePath) : Nat × UInt64 :=
  (path.length, path.segments.foldl (fun sum segment => sum + segmentHash segment) 0)

/-- The paths of a list without those equal to an earlier one. -/
def distinct (paths : List ValuePath) : List ValuePath :=
  (paths.foldl (fun found path => if found.any (path == ·) then found else path :: found)
    []).reverse

end ValuePath
end ItemShape
