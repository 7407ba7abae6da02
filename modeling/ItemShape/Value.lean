import ItemShape.Entries
import ItemShape.Number
import ItemShape.Operation

/-!
# ItemShape.Value

The values that are parsed, stored and formatted.

Absence is not a value; where an attribute may be missing the type is `Option Value`. Sets carry
their members as a list. Maps keep the order of their entries, whose names are distinct.

Two comparisons are defined. `equal` ignores the order of map entries and tells the two forms of
numbers apart; `same` compares numbers by magnitude, inside lists and maps too.
-/

namespace ItemShape

inductive Value where
  | null
  | bool (b : Bool)
  | number (n : Number)
  | string (s : String)
  | list (items : List Value)
  | map (entries : List (String × Value))
  | op (operation : Operation Value)

namespace Value

/-- Type name in error messages. -/
def typeName : Value → String
  | .null => "null"
  | .bool _ => "boolean"
  | .number _ => "number"
  | .string _ => "string"
  | .list _ => "list"
  | .map _ => "map"
  | .op operation => operation.tag.typeName

def string? : Value → Option String
  | .string s => some s
  | _ => none

def list? : Value → Option (List Value)
  | .list items => some items
  | _ => none

def map? : Value → Option (List (String × Value))
  | .map entries => some entries
  | _ => none

def operation? : Value → Option (Operation Value)
  | .op operation => some operation
  | _ => none

/-- The value is an operation with this tag. -/
def isOperation (tag : OpTag) (value : Value) : Bool :=
  match value with
  | .op operation => operation.tag == tag
  | _ => false

/-! ## Comparison -/

mutual

def equal : Value → Value → Bool
  | .null, .null => true
  | .bool a, .bool b => a == b
  | .number a, .number b => a.equal b
  | .string a, .string b => a == b
  | .list a, .list b => itemsEqual a b
  | .map a, .map b => a.length == b.length && entriesEqual a b
  | .op (.add a), .op (.add b) => equal a b
  | .op (.delete a), .op (.delete b) => equal a b
  | .op (.set a), .op (.set b) => equal a b
  | .op .remove, .op .remove => true
  | .op (.get a none), .op (.get b none) => a == b
  | .op (.get a (some v)), .op (.get b (some w)) => a == b && equal v w
  | _, _ => false

def itemsEqual : List Value → List Value → Bool
  | [], [] => true
  | v :: vs, w :: ws => equal v w && itemsEqual vs ws
  | _, _ => false

/-- Every entry of the first list has an equal value under its name in the second. -/
def entriesEqual : List (String × Value) → List (String × Value) → Bool
  | [], _ => true
  | (name, v) :: rest, others =>
    (match Entries.get? name others with
      | some w => equal v w
      | none => false) && entriesEqual rest others

end

instance : BEq Value := ⟨equal⟩

mutual

def same : Value → Value → Bool
  | .number a, .number b => a.same b
  | .list a, .list b => itemsSame a b
  | .map a, .map b => a.length == b.length && entriesSame a b
  | v, w => v.equal w

def itemsSame : List Value → List Value → Bool
  | [], [] => true
  | v :: vs, w :: ws => same v w && itemsSame vs ws
  | _, _ => false

/-- Every entry of the first list has the same value under its name in the second. -/
def entriesSame : List (String × Value) → List (String × Value) → Bool
  | [], _ => true
  | (name, v) :: rest, others =>
    (match Entries.get? name others with
      | some w => same v w
      | none => false) && entriesSame rest others

end

/-- Some two members, at different positions, are the same value. -/
def hasDuplicates : List Value → Bool
  | [] => false
  | member :: rest => rest.any (fun other => member.same other) || hasDuplicates rest

/-! ## Distinct names -/

mutual

/-- At every depth the entries of a map have distinct names. -/
def DistinctNames : Value → Prop
  | .null | .bool _ | .number _ | .string _ => True
  | .list items => ItemsDistinct items
  | .map entries => Entries.Distinct entries ∧ EntriesDistinct entries
  | .op (.add operand) | .op (.delete operand) | .op (.set operand) => DistinctNames operand
  | .op .remove | .op (.get _ none) => True
  | .op (.get _ (some fallback)) => DistinctNames fallback

def ItemsDistinct : List Value → Prop
  | [] => True
  | item :: rest => item.DistinctNames ∧ ItemsDistinct rest

def EntriesDistinct : List (String × Value) → Prop
  | [] => True
  | (_, value) :: rest => value.DistinctNames ∧ EntriesDistinct rest

end

end Value
end ItemShape
