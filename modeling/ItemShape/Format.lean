import ItemShape.Parse.Fill

/-!
# ItemShape.Format

Formatting: from a stored value back to its declared shape.

Attributes are read under their stored names and reported under their declared ones, scalars and
record keys are decoded. Hidden attributes are dropped, and so is whatever the schema does not
declare.
-/

namespace ItemShape

/-- Decoded form of a stored value, where a transformer is given. -/
def decodeWith (transformer : Option Transformer) (stored : Value) : Value :=
  match transformer with
  | some transformer => transformer.decode stored
  | none => stored

/-- The key that a stored key stands for; it must be a string. -/
def declaredKey (transformer : Option Transformer) (stored : String) (path : ValuePath) :
    Except SchemaError String :=
  match decodeWith transformer (.string stored) with
  | .string key => .ok key
  | other => .error (.mismatch path "string key" other.typeName)

/-- Items of a list, the first one at `position`. -/
def formatItems (formatItem : ValuePath → Value → Except SchemaError Value) (path : ValuePath)
    (position : Nat) : List Value → Except SchemaError (List Value)
  | [] => .ok []
  | item :: rest =>
    match formatItem (path.index position) item with
    | .error e => .error e
    | .ok value =>
      match formatItems formatItem path (position + 1) rest with
      | .error e => .error e
      | .ok values => .ok (value :: values)

/-- Members of a set, all at the place of the set. -/
def formatMembers (formatMember : Value → Except SchemaError Value) :
    List Value → Except SchemaError (List Value)
  | [] => .ok []
  | member :: rest =>
    match formatMember member with
    | .error e => .error e
    | .ok value =>
      match formatMembers formatMember rest with
      | .error e => .error e
      | .ok values => .ok (value :: values)

/-- Entries of a record. A key that comes up again takes the later value. -/
def formatEntries (keys : Option Transformer)
    (formatElement : ValuePath → Value → Except SchemaError Value) (path : ValuePath)
    (done : List (String × Value)) :
    List (String × Value) → Except SchemaError (List (String × Value))
  | [] => .ok done
  | (stored, element) :: rest =>
    match declaredKey keys stored (path.member stored) with
    | .error e => .error e
    | .ok key =>
      match formatElement (path.member key) element with
      | .error e => .error e
      | .ok value => formatEntries keys formatElement path (Entries.insert key value done) rest

mutual

/-- A stored value at `path`, formatted. -/
def formatNode : Schema → ValuePath → Value → Except SchemaError Value
  | .mk props kind, path, stored => formatKind kind props.transformer path stored

def formatKind : Kind Schema → Option Transformer → ValuePath → Value → Except SchemaError Value
  | .scalar kind, transformer, path, stored =>
    let value := decodeWith transformer stored
    if scalarMatches kind value then .ok value
    else .error (.mismatch path kind.name value.typeName)
  | .list elements, _, path, stored =>
    match stored with
    | .list items =>
      match formatItems (fun place item => formatNode elements place item) path 0 items with
      | .error e => .error e
      | .ok values => .ok (.list values)
    | other => .error (.mismatch path (KindName.text .list) other.typeName)
  | .set elements, _, path, stored =>
    match stored with
    | .list members =>
      match formatMembers (fun member => formatNode elements path member) members with
      | .error e => .error e
      | .ok values => .ok (.list values)
    | other => .error (.mismatch path (KindName.text .set) other.typeName)
  | .map attributes, _, path, stored =>
    match stored with
    | .map entries =>
      match formatAttributes attributes path entries with
      | .error e => .error e
      | .ok formatted => .ok (.map formatted)
    | other => .error (.mismatch path (KindName.text .map) other.typeName)
  | .item attributes, _, path, stored =>
    match stored with
    | .map entries =>
      match formatAttributes attributes path entries with
      | .error e => .error e
      | .ok formatted => .ok (.map formatted)
    | other => .error (.mismatch path (KindName.text .item) other.typeName)
  | .record keys elements, _, path, stored =>
    match stored with
    | .map entries =>
      match formatEntries keys.transformer? (fun place item => formatNode elements place item) path
        [] entries with
      | .error e => .error e
      | .ok formatted => .ok (.map formatted)
    | other => .error (.mismatch path (KindName.text .record) other.typeName)
  | .anyOf members, _, path, stored =>
    match formatFirst members path stored with
    | some value => .ok value
    | none => .error (.mismatch path (memberNames members) stored.typeName)

/-- The shown attributes that are stored, in declaration order. -/
def formatAttributes : List (String × Schema) → ValuePath → List (String × Value) →
    Except SchemaError (List (String × Value))
  | [], _, _ => .ok []
  | (name, schema) :: rest, path, stored =>
    if schema.isHidden then formatAttributes rest path stored
    else
      match Entries.get? (schema.storedName name) stored with
      | none => formatAttributes rest path stored
      | some held =>
        match formatNode schema (path.member name) held with
        | .error e => .error e
        | .ok value =>
          match formatAttributes rest path stored with
          | .error e => .error e
          | .ok others => .ok ((name, value) :: others)

/-- The first member of a union that accepts the stored value. -/
def formatFirst : List Schema → ValuePath → Value → Option Value
  | [], _, _ => none
  | member :: rest, path, stored =>
    match formatNode member path stored with
    | .ok value => some value
    | .error _ => formatFirst rest path stored

end

/-- A stored value in the shape the schema declares. -/
def Schema.format (schema : Schema) (stored : Value) : Except SchemaError Value :=
  formatNode schema .root stored

end ItemShape
