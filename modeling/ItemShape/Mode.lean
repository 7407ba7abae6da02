/-!
# ItemShape.Mode

Write modes, requirement rules and the names of attribute kinds.

A parse computes a key (`key`), writes a whole item (`put`) or updates a stored one (`update`).
Whether an attribute must be present depends on its requirement and on the mode:

* `atLeastOnce`, the default: required in put mode only;
* `always`: required in every mode;
* `never`: required in none.
-/

namespace ItemShape

inductive Mode where
  | key
  | put
  | update
  deriving DecidableEq

namespace Mode

def all : List Mode :=
  [key, put, update]

def name : Mode → String
  | key => "key"
  | put => "put"
  | update => "update"

/-- Member names of per-mode objects in definitions. -/
def names : List String :=
  all.map name

/-- The mode with exactly this name. -/
def ofName? (name : String) : Option Mode :=
  all.find? (fun mode => mode.name == name)

/-- The mode a caller names, in upper or lower case of the ASCII letters; `create` is another name
of the put mode. -/
def parse? (text : String) : Option Mode :=
  let lower := String.ofList (text.toList.map Char.toLower)
  if lower = "create" then some .put else ofName? lower

end Mode

inductive Required where
  | atLeastOnce
  | always
  | never
  deriving DecidableEq

namespace Required

def ofName? (name : String) : Option Required :=
  if name = "atLeastOnce" then some .atLeastOnce
  else if name = "always" then some .always
  else if name = "never" then some .never
  else none

def isRequired : Required → Mode → Bool
  | .atLeastOnce, mode => mode == .put
  | .always, _ => true
  | .never, _ => false

end Required

inductive ScalarKind where
  | any
  | null
  | boolean
  | number
  | string
  deriving DecidableEq

def ScalarKind.name : ScalarKind → String
  | any => "any"
  | null => "null"
  | boolean => "boolean"
  | number => "number"
  | string => "string"

/-- The kinds of attributes, without their children. -/
inductive KindName where
  | scalar (kind : ScalarKind)
  | set
  | list
  | map
  | record
  | anyOf
  | item
  deriving DecidableEq

namespace KindName

def all : List KindName :=
  [.scalar .any, .scalar .null, .scalar .boolean, .scalar .number, .scalar .string,
    .set, .list, .map, .record, .anyOf, .item]

def text : KindName → String
  | .scalar kind => kind.name
  | .set => "set"
  | .list => "list"
  | .map => "map"
  | .record => "record"
  | .anyOf => "anyOf"
  | .item => "item"

def ofText? (text : String) : Option KindName :=
  all.find? (fun kind => kind.text == text)

end KindName
end ItemShape
