import ItemShape.Entries
import ItemShape.Number

/-!
# ItemShape.Json

Documents: the values of the JSON data model, with object members in the order they were written.

The members of an object have distinct names (`DistinctNames`); the reader guarantees it, and every
function that builds an object keeps it.
-/

namespace ItemShape

inductive Json where
  | null
  | bool (b : Bool)
  | number (n : Number)
  | string (s : String)
  | array (items : List Json)
  | object (members : List (String × Json))

instance : Inhabited Json := ⟨.null⟩

namespace Json

/-- Member of an object; other documents have none. -/
def get? (name : String) : Json → Option Json
  | .object members => Entries.get? name members
  | _ => none

mutual

/-- At every depth the members of an object have distinct names. -/
def DistinctNames : Json → Prop
  | .null | .bool _ | .number _ | .string _ => True
  | .array items => ItemsDistinct items
  | .object members => Entries.Distinct members ∧ MembersDistinct members

def ItemsDistinct : List Json → Prop
  | [] => True
  | item :: rest => item.DistinctNames ∧ ItemsDistinct rest

def MembersDistinct : List (String × Json) → Prop
  | [] => True
  | (_, value) :: rest => value.DistinctNames ∧ MembersDistinct rest

end

end Json
end ItemShape
