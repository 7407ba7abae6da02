import ItemShape.Parse.Parser
import ItemShape.Schema.Transformer

/-!
# ItemShape.Parse.Filled

What stands between the two steps of a parse: a tree of filled values in which every node keeps
what the second step needs, so that nothing is checked twice.

`Filled.value?` is the filled value, `Filled.store` the value to store: attributes under their
stored names, record keys and scalars encoded.
-/

namespace ItemShape

/-- An attribute with its declared name, its stored name and what it holds. -/
structure Slot (α : Type) where
  name : String
  stored : String
  content : α

inductive Filled where
  | absent
  | scalar (transformer : Option Transformer) (value : Value)
  | list (items : List Filled)
  | set (members : List Filled)
  | map (slots : List (Slot Filled))
  | record (keys : Option Transformer) (entries : List (String × Filled))
  /-- A subtree that an extension parses, after its first step. -/
  | extended (filled : Option Value) (rest : Parser)

namespace Filled

mutual

/-- The filled value; absent children leave no trace. -/
def value? : Filled → Option Value
  | .absent => none
  | .scalar _ value => some value
  | .list items => some (.list (itemValues items))
  | .set members => some (.list (itemValues members))
  | .map slots => some (.map (slotValues slots))
  | .record _ entries => some (.map (entryValues entries))
  | .extended filled _ => filled

def itemValues : List Filled → List Value
  | [] => []
  | item :: rest =>
    match item.value? with
    | none => itemValues rest
    | some value => value :: itemValues rest

def slotValues : List (Slot Filled) → List (String × Value)
  | [] => []
  | ⟨name, _, content⟩ :: rest =>
    match content.value? with
    | none => slotValues rest
    | some value => (name, value) :: slotValues rest

def entryValues : List (String × Filled) → List (String × Value)
  | [] => []
  | (key, content) :: rest =>
    match content.value? with
    | none => entryValues rest
    | some value => (key, value) :: entryValues rest

end

/-- Encoded form of a value, where a transformer is given. -/
def encodeWith (transformer : Option Transformer) (value : Value) : Value :=
  match transformer with
  | some transformer => transformer.encode value
  | none => value

/-- The key under which an entry is stored; it must be a string. -/
def storedKey (transformer : Option Transformer) (key : String) (path : ValuePath) :
    Except SchemaError String :=
  match encodeWith transformer (.string key) with
  | .string encoded => .ok encoded
  | other => .error (.mismatch path "string key" other.typeName)

mutual

/-- The value to store. Two children that would be stored under one name are an error at the map
that holds them. -/
def store (path : ValuePath) : Filled → Outcome
  | .absent => .ok none
  | .scalar transformer value => .ok (some (encodeWith transformer value))
  | .list items =>
    match storeItems path 0 items with
    | .error e => .error e
    | .ok values => .ok (some (.list values))
  | .set members =>
    match storeMembers path members with
    | .error e => .error e
    | .ok values => .ok (some (.list values))
  | .map slots =>
    match storeSlots path [] slots with
    | .error e => .error e
    | .ok entries => .ok (some (.map entries))
  | .record keys entries =>
    match storeEntries path keys [] entries with
    | .error e => .error e
    | .ok stored => .ok (some (.map stored))
  | .extended filled rest =>
    match rest.next with
    | (some outcome, _) => outcome
    | (none, _) => .ok filled

/-- Items of a list, the first one at `position`. -/
def storeItems (path : ValuePath) (position : Nat) :
    List Filled → Except SchemaError (List Value)
  | [] => .ok []
  | item :: rest =>
    match item.store (path.index position) with
    | .error e => .error e
    | .ok value =>
      match storeItems path (position + 1) rest with
      | .error e => .error e
      | .ok values => .ok (value.toList ++ values)

/-- Members of a set, which have no position: errors point at the set. -/
def storeMembers (path : ValuePath) : List Filled → Except SchemaError (List Value)
  | [] => .ok []
  | member :: rest =>
    match member.store path with
    | .error e => .error e
    | .ok value =>
      match storeMembers path rest with
      | .error e => .error e
      | .ok values => .ok (value.toList ++ values)

/-- Attributes of a map; `taken` holds the stored names already used. -/
def storeSlots (path : ValuePath) (taken : List String) :
    List (Slot Filled) → Except SchemaError (List (String × Value))
  | [] => .ok []
  | ⟨name, stored, content⟩ :: rest =>
    match content.store (path.member name) with
    | .error e => .error e
    | .ok none => storeSlots path taken rest
    | .ok (some value) =>
      if taken.contains stored then .error (.conflict path stored)
      else
        match storeSlots path (stored :: taken) rest with
        | .error e => .error e
        | .ok entries => .ok ((stored, value) :: entries)

/-- Entries of a record; `taken` holds the stored keys already used. -/
def storeEntries (path : ValuePath) (keys : Option Transformer) (taken : List String) :
    List (String × Filled) → Except SchemaError (List (String × Value))
  | [] => .ok []
  | (key, content) :: rest =>
    match content.store (path.member key) with
    | .error e => .error e
    | .ok none => storeEntries path keys taken rest
    | .ok (some value) =>
      match storedKey keys key (path.member key) with
      | .error e => .error e
      | .ok stored =>
        if taken.contains stored then .error (.conflict path stored)
        else
          match storeEntries path keys (stored :: taken) rest with
          | .error e => .error e
          | .ok entries => .ok ((stored, value) :: entries)

end

end Filled
end ItemShape
