/-!
# ItemShape.Operation

Update operations: what an update does to one attribute instead of giving its new value.

* `add` puts members into a set or increments a number;
* `delete` takes members out of a set;
* `set` replaces a whole value instead of merging into it;
* `remove` removes the attribute;
* `get` reads another attribute, with an optional fallback for when that one does not exist.

An operation is always written explicitly. In a document it is an object with one member, whose
name is the key of its tag.
-/

namespace ItemShape

inductive OpTag where
  | add
  | delete
  | remove
  | set
  | get
  deriving DecidableEq

namespace OpTag

def all : List OpTag :=
  [add, delete, remove, set, get]

/-- Name of the tag, also its segment in a path. -/
def name : OpTag → String
  | add => "ADD"
  | delete => "DELETE"
  | remove => "REMOVE"
  | set => "SET"
  | get => "GET"

/-- Member name of the tag in the one-member notation of documents. -/
def key : OpTag → String
  | add => "$ADD"
  | delete => "$DELETE"
  | remove => "$REMOVE"
  | set => "$SET"
  | get => "$GET"

def ofKey? (key : String) : Option OpTag :=
  all.find? (fun tag => tag.key == key)

/-- What an operation is called where a value of another type was expected. -/
def typeName (tag : OpTag) : String :=
  tag.name ++ " operation"

end OpTag

inductive Operation (α : Type) where
  | add (operand : α)
  | delete (operand : α)
  | set (operand : α)
  | remove
  | get (source : String) (fallback : Option α)

namespace Operation

variable {α : Type}

def tag : Operation α → OpTag
  | .add _ => .add
  | .delete _ => .delete
  | .set _ => .set
  | .remove => .remove
  | .get _ _ => .get

/-- The operand of an operation that carries a value. -/
def payload? : Operation α → Option α
  | .add operand | .delete operand | .set operand => some operand
  | .remove | .get _ _ => none

end Operation
end ItemShape
