/-!
# ItemShape.Entries

Named entries kept in insertion order, as plain lists of pairs.

Objects, attribute maps and declared attributes are all such lists. Every operation keeps the
names distinct (`Distinct`): `insert` replaces the value of a name in place and appends a new
name, so a name keeps the position of its first appearance.
-/

namespace ItemShape
namespace Entries

variable {α : Type}

/-- Value of the first entry called `name`. -/
def get? (name : String) : List (String × α) → Option α
  | [] => none
  | (key, value) :: rest => if key = name then some value else get? name rest

def contains (name : String) (entries : List (String × α)) : Bool :=
  (get? name entries).isSome

/-- A known name keeps its place and takes the new value; a new name goes to the end. -/
def insert (name : String) (value : α) : List (String × α) → List (String × α)
  | [] => [(name, value)]
  | (key, old) :: rest =>
    if key = name then (key, value) :: rest else (key, old) :: insert name value rest

/-- Entries without the first one called `name`. -/
def erase (name : String) : List (String × α) → List (String × α)
  | [] => []
  | (key, value) :: rest => if key = name then rest else (key, value) :: erase name rest

def names (entries : List (String × α)) : List String :=
  entries.map Prod.fst

/-- The entries of a list of pairs that may repeat names: first position, last value. -/
def ofList (pairs : List (String × α)) : List (String × α) :=
  pairs.foldl (fun entries pair => insert pair.1 pair.2 entries) []

/-- No two entries share a name. -/
def Distinct (entries : List (String × α)) : Prop :=
  (names entries).Nodup

instance (entries : List (String × α)) : Decidable (Distinct entries) :=
  inferInstanceAs (Decidable (List.Nodup _))

end Entries
end ItemShape
