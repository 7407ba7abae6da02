import ItemShape.Error
import ItemShape.Schema.Props

/-!
# ItemShape.Schema

Schemas of attributes and of whole items: a kind with its children, and properties.

The constructors of compound schemas (`Schema.set?`, `Schema.list?`, `Schema.map?`,
`Schema.record?`, `Schema.anyOf?`, `Schema.item?`) refuse children that cannot stand there. The
builders change one property and leave the rest of the schema as it is.
-/

namespace ItemShape

inductive Kind (α : Type) where
  | scalar (kind : ScalarKind)
  /-- Unordered collection of unique scalars. -/
  | set (elements : α)
  | list (elements : α)
  /-- Fixed, named attributes. -/
  | map (attributes : List (String × α))
  /-- Any string keys, with values of one schema. -/
  | record (keys elements : α)
  /-- The first member that accepts the value wins. -/
  | anyOf (members : List α)
  /-- A whole item, only at the root. -/
  | item (attributes : List (String × α))

def Kind.name {α : Type} : Kind α → KindName
  | scalar kind => .scalar kind
  | set _ => .set
  | list _ => .list
  | map _ => .map
  | record _ _ => .record
  | anyOf _ => .anyOf
  | item _ => .item

inductive Schema where
  | mk (props : Props) (kind : Kind Schema)

namespace Schema

def props : Schema → Props
  | mk props _ => props

def kind : Schema → Kind Schema
  | mk _ kind => kind

def kindName (schema : Schema) : KindName :=
  schema.kind.name

/-- Children of a map or item. -/
def attributes? (schema : Schema) : Option (List (String × Schema)) :=
  match schema.kind with
  | .map attributes | .item attributes => some attributes
  | _ => none

/-- Element schema of a set, list or record. -/
def elements? (schema : Schema) : Option Schema :=
  match schema.kind with
  | .set elements | .list elements | .record _ elements => some elements
  | _ => none

def isRequired (schema : Schema) (mode : Mode) : Bool :=
  schema.props.required.isRequired mode

def isHidden (schema : Schema) : Bool :=
  schema.props.hidden

def isKey (schema : Schema) : Bool :=
  schema.props.key

/-- The name under which an attribute declared as `name` is stored. -/
def storedName (schema : Schema) (name : String) : String :=
  schema.props.savedAs.getD name

def default? (schema : Schema) (mode : Mode) : Option Default :=
  schema.props.defaults.get? mode

def link? (schema : Schema) (mode : Mode) : Option Link :=
  schema.props.links.get? mode

def validator? (schema : Schema) (mode : Mode) : Option Validator :=
  schema.props.validators.get? mode

def transformer? (schema : Schema) : Option Transformer :=
  schema.props.transformer

/-! ## Builders -/

def withProps (schema : Schema) (change : Props → Props) : Schema :=
  mk (change schema.props) schema.kind

def require (schema : Schema) (required : Required) : Schema :=
  schema.withProps (fun props => { props with required := required })

def makeOptional (schema : Schema) : Schema :=
  schema.require .never

def hide (schema : Schema) : Schema :=
  schema.withProps (fun props => { props with hidden := true })

/-- Makes the attribute part of the primary key, and so required in every mode. -/
def makeKey (schema : Schema) : Schema :=
  schema.withProps (fun props => { props with key := true, required := .always })

def savedAs (schema : Schema) (name : String) : Schema :=
  schema.withProps (fun props => { props with savedAs := some name })

/-- Only these values are allowed. -/
def enumerate (schema : Schema) (values : List Value) : Schema :=
  schema.withProps (fun props => { props with enumerated := some values })

def defaultIn (schema : Schema) (mode : Mode) (default : Default) : Schema :=
  schema.withProps (fun props => { props with defaults := props.defaults.set mode default })

def linkIn (schema : Schema) (mode : Mode) (link : Link) : Schema :=
  schema.withProps (fun props => { props with links := props.links.set mode link })

def validateIn (schema : Schema) (mode : Mode) (validator : Validator) : Schema :=
  schema.withProps (fun props => { props with validators := props.validators.set mode validator })

def transform (schema : Schema) (transformer : Transformer) : Schema :=
  schema.withProps (fun props => { props with transformer := some transformer })

/-- The mode meant where none is named: the key mode for key attributes, else the put mode. -/
def primaryMode (schema : Schema) : Mode :=
  if schema.isKey then .key else .put

def defaultTo (schema : Schema) (default : Default) : Schema :=
  schema.defaultIn schema.primaryMode default

def linkTo (schema : Schema) (link : Link) : Schema :=
  schema.linkIn schema.primaryMode link

def validate (schema : Schema) (validator : Validator) : Schema :=
  schema.validateIn schema.primaryMode validator

/-! ## Constructors -/

def ofKind (kind : Kind Schema) : Schema :=
  mk .plain kind

def scalar (kind : ScalarKind) : Schema :=
  ofKind (.scalar kind)

def isItem (schema : Schema) : Bool :=
  schema.kindName == .item

/-- Elements, keys and members must be required, shown, unrenamed, without default or link, and no
items. -/
def checkElement (container : KindName) (element : Schema) : Except ConstructionError Unit :=
  if element.props.required = .never then .error (.optionalElement container)
  else if element.isHidden then .error (.hiddenElement container)
  else
    match element.props.savedAs with
    | some name => .error (.renamedElement container name)
    | none =>
      if !element.props.defaults.isEmpty || !element.props.links.isEmpty then
        .error (.defaultedElement container)
      else if element.isItem then .error (.nestedItem container)
      else .ok ()

/-- The first error of the elements, in order. -/
def checkElements (container : KindName) : List Schema → Except ConstructionError Unit
  | [] => .ok ()
  | element :: rest =>
    match checkElement container element with
    | .error e => .error e
    | .ok _ => checkElements container rest

/-- Set of scalars. -/
def set? (elements : Schema) : Except ConstructionError Schema :=
  match checkElement .set elements with
  | .error e => .error e
  | .ok _ =>
    match elements.kind with
    | .scalar _ => .ok (ofKind (.set elements))
    | other => .error (.nonScalarSetElement other.name)

def list? (elements : Schema) : Except ConstructionError Schema :=
  match checkElement .list elements with
  | .error e => .error e
  | .ok _ => .ok (ofKind (.list elements))

/-- Record, with keys described by a string schema. -/
def record? (keys elements : Schema) : Except ConstructionError Schema :=
  match checkElements .record [keys, elements] with
  | .error e => .error e
  | .ok _ =>
    match keys.kind with
    | .scalar .string => .ok (ofKind (.record keys elements))
    | other => .error (.nonStringRecordKey other.name)

/-- Union of at least one member, tried in order. -/
def anyOf? (members : List Schema) : Except ConstructionError Schema :=
  if members.isEmpty then .error .emptyAnyOf
  else
    match checkElements .anyOf members with
    | .error e => .error e
    | .ok _ => .ok (ofKind (.anyOf members))

/-- Map of named attributes; a repeated name keeps its first place and takes the last schema. -/
def map? (attributes : List (String × Schema)) : Except ConstructionError Schema :=
  if attributes.any (fun entry => entry.2.isItem) then .error (.nestedItem .map)
  else .ok (ofKind (.map (Entries.ofList attributes)))

/-- Whole item, with its attributes as in a map. -/
def item? (attributes : List (String × Schema)) : Except ConstructionError Schema :=
  if attributes.any (fun entry => entry.2.isItem) then .error (.nestedItem .item)
  else .ok (ofKind (.item (Entries.ofList attributes)))

end Schema
end ItemShape
