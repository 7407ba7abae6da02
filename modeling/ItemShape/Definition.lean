import ItemShape.Json.Pointer
import ItemShape.Json.Reader
import ItemShape.Schema
import ItemShape.Schema.Validator

/-!
# ItemShape.Definition

Schema definitions as documents: an object with a `type`, the children that the type needs, and
properties.

`Definition.decode` builds the schema of a definition. Errors carry the pointer of the
sub-definition, or of the part of it, that they are about. Keywords that are not in
`Definition.keywords` are ignored here. Validators are what a `FragmentCompiler` makes of their
fragments, whichever it is.
-/

namespace ItemShape
namespace Definition

def keywords : List String :=
  ["type", "required", "hidden", "key", "savedAs", "enum", "default", "validate", "transform",
    "elements", "attributes", "keys", "members", "description"]

/-- Values of the `type` keyword. -/
def types : List String :=
  KindName.all.map KindName.text

def invalid (pointer message : String) : LoadError :=
  .invalidDefinition (Pointer.display pointer) message

/-- A composition that is refused, as an error of the definition at `pointer`. -/
def composed (pointer : String) (outcome : Except ConstructionError Schema) :
    Except LoadError Schema :=
  match outcome with
  | .ok schema => .ok schema
  | .error e => .error (.construction (Pointer.display pointer) e)

/-! ## Properties -/

abbrev Members : Type :=
  List (String × Json)

/-- A keyword that is true or false, and false where it is missing. -/
def flag (pointer keyword : String) (members : Members) : Except LoadError Bool :=
  match Entries.get? keyword members with
  | none => .ok false
  | some (.bool b) => .ok b
  | some _ => .error (invalid pointer ("\"" ++ keyword ++ "\" must be a boolean"))

def decodeRequired (pointer : String) (members : Members) (schema : Schema) :
    Except LoadError Schema :=
  let refused := invalid pointer "\"required\" must be one of: atLeastOnce, always, never"
  match Entries.get? "required" members with
  | none => .ok schema
  | some (.string name) =>
    match Required.ofName? name with
    | some required => .ok (schema.require required)
    | none => .error refused
  | some _ => .error refused

def decodeKey (pointer : String) (members : Members) (schema : Schema) :
    Except LoadError Schema :=
  match flag pointer "key" members with
  | .error e => .error e
  | .ok isKey => .ok (if isKey then schema.makeKey else schema)

def decodeHidden (pointer : String) (members : Members) (schema : Schema) :
    Except LoadError Schema :=
  match flag pointer "hidden" members with
  | .error e => .error e
  | .ok isHidden => .ok (if isHidden then schema.hide else schema)

def decodeSavedAs (pointer : String) (members : Members) (schema : Schema) :
    Except LoadError Schema :=
  let refused := invalid pointer "\"savedAs\" must be a non-empty string"
  match Entries.get? "savedAs" members with
  | none => .ok schema
  | some (.string name) => if name.isEmpty then .error refused else .ok (schema.savedAs name)
  | some _ => .error refused

def decodeEnumerated (pointer : String) (members : Members) (schema : Schema) :
    Except LoadError Schema :=
  match Entries.get? "enum" members with
  | none => .ok schema
  | some (.array values) => .ok (schema.enumerate (values.map Value.ofJson))
  | some _ => .error (invalid pointer "\"enum\" must be an array")

/-- The members of an object as values for modes, if all are named by modes. -/
def modeValues? : Members → Option (List (Mode × Json))
  | [] => some []
  | (name, value) :: rest =>
    match Mode.ofName? name, modeValues? rest with
    | some mode, some others => some ((mode, value) :: others)
    | _, _ => none

/-- A default given per mode: an object with at least one member, all named by modes. -/
def perMode? (value : Json) : Option (List (Mode × Json)) :=
  match value with
  | .object (first :: rest) => modeValues? (first :: rest)
  | _ => none

def decodeDefault (members : Members) (schema : Schema) : Schema :=
  match Entries.get? "default" members with
  | none => schema
  | some value =>
    match perMode? value with
    | some defaults =>
      defaults.foldl (fun schema entry => schema.defaultIn entry.1 (.value (.ofJson entry.2)))
        schema
    | none => schema.defaultTo (.value (.ofJson value))

section Validators

variable [FragmentCompiler]

/-- Validators of the modes; members named by no mode are ignored. -/
def decodeValidators (pointer : String) (schema : Schema) : Members → Except LoadError Schema
  | [] => .ok schema
  | (name, fragment) :: rest =>
    match Mode.ofName? name with
    | none => decodeValidators pointer schema rest
    | some mode =>
      match Validator.ofFragment? fragment with
      | .error fault => .error (invalid (Pointer.child pointer name) fault)
      | .ok validator => decodeValidators pointer (schema.validateIn mode validator) rest

def decodeValidate (pointer : String) (members : Members) (schema : Schema) :
    Except LoadError Schema :=
  match Entries.get? "validate" members with
  | none => .ok schema
  | some (.object fragments) =>
    decodeValidators (Pointer.child pointer "validate") schema fragments
  | some _ => .error (invalid pointer "\"validate\" must map modes to JSON Schemas")

end Validators

/-- The delimiter of a transformer. -/
def decodeDelimiter (pointer : String) (members : Members) : Except LoadError String :=
  match Entries.get? "delimiter" members with
  | none => .ok Transformer.defaultDelimiter
  | some (.string delimiter) => .ok delimiter
  | some _ => .error (invalid pointer "\"delimiter\" must be a string")

/-- The transformer of a definition, given by the object under its keyword. -/
def decodeTransformer (pointer : String) (transform : Json) : Except LoadError Transformer :=
  match transform with
  | .object members =>
    match decodeDelimiter pointer members with
    | .error e => .error e
    | .ok delimiter =>
      match Entries.get? "prefix" members, Entries.get? "suffix" members with
      | some (.string text), none => .ok (.addPrefix text delimiter)
      | none, some (.string text) => .ok (.addSuffix text delimiter)
      | _, _ => .error (invalid pointer "expected exactly one string \"prefix\" or \"suffix\"")
  | _ => .error (invalid pointer "\"transform\" must be an object")

def decodeTransform (pointer : String) (members : Members) (schema : Schema) :
    Except LoadError Schema :=
  match Entries.get? "transform" members with
  | none => .ok schema
  | some transform =>
    match decodeTransformer (Pointer.child pointer "transform") transform with
    | .error e => .error e
    | .ok transformer => .ok (schema.transform transformer)

/-- The properties of a definition, put on the schema of its kind. Being a key comes after the
requirement and before the default, which goes to the key mode then. -/
def decodeProps [FragmentCompiler] (pointer : String) (members : Members) (schema : Schema) :
    Except LoadError Schema :=
  match decodeRequired pointer members schema with
  | .error e => .error e
  | .ok schema =>
    match decodeKey pointer members schema with
    | .error e => .error e
    | .ok schema =>
      match decodeHidden pointer members schema with
      | .error e => .error e
      | .ok schema =>
        match decodeSavedAs pointer members schema with
        | .error e => .error e
        | .ok schema =>
          match decodeEnumerated pointer members schema with
          | .error e => .error e
          | .ok schema =>
            match decodeValidate pointer members (decodeDefault members schema) with
            | .error e => .error e
            | .ok schema => decodeTransform pointer members schema

/-! ## Kinds -/

/-- The sub-definitions that stand under one keyword, decoded. -/
inductive Part where
  | one (outcome : Except LoadError Schema)
  | named (outcome : Except LoadError (List (String × Schema)))
  | listed (outcome : Except LoadError (List Schema))
  | other

abbrev Parts : Type :=
  List (String × Part)

/-- The sub-definition under a keyword, which must be there. -/
def neededPart (pointer keyword : String) (parts : Parts) : Except LoadError Schema :=
  match Entries.get? keyword parts with
  | some (.one outcome) => outcome
  | _ => .error (invalid pointer ("missing \"" ++ keyword ++ "\""))

/-- The key schema of a record, by default a string. -/
def keysPart (parts : Parts) : Except LoadError Schema :=
  match Entries.get? "keys" parts with
  | some (.one outcome) => outcome
  | _ => .ok (.scalar .string)

def attributesPart (pointer : String) (parts : Parts) :
    Except LoadError (List (String × Schema)) :=
  match Entries.get? "attributes" parts with
  | some (.named outcome) => outcome
  | _ => .error (invalid pointer "missing \"attributes\" object")

def membersPart (pointer : String) (parts : Parts) : Except LoadError (List Schema) :=
  match Entries.get? "members" parts with
  | some (.listed outcome) => outcome
  | _ => .error (invalid pointer "anyOf needs a \"members\" array")

/-- The schema of a kind without properties. -/
def decodeKind (pointer : String) (parts : Parts) (kind : KindName) : Except LoadError Schema :=
  match kind with
  | .scalar kind => .ok (.scalar kind)
  | .set =>
    match neededPart pointer "elements" parts with
    | .error e => .error e
    | .ok elements => composed pointer (Schema.set? elements)
  | .list =>
    match neededPart pointer "elements" parts with
    | .error e => .error e
    | .ok elements => composed pointer (Schema.list? elements)
  | .record =>
    match keysPart parts with
    | .error e => .error e
    | .ok keys =>
      match neededPart pointer "elements" parts with
      | .error e => .error e
      | .ok elements => composed pointer (Schema.record? keys elements)
  | .map =>
    match attributesPart pointer parts with
    | .error e => .error e
    | .ok attributes => composed pointer (Schema.map? attributes)
  | .item =>
    match attributesPart pointer parts with
    | .error e => .error e
    | .ok attributes => composed pointer (Schema.item? attributes)
  | .anyOf =>
    match membersPart pointer parts with
    | .error e => .error e
    | .ok members => composed pointer (Schema.anyOf? members)

def unknownType (name : String) : String :=
  "unknown type \"" ++ name ++ "\" (expected one of: " ++ String.intercalate ", " types ++ ")"

variable [FragmentCompiler]

/-- The schema of a definition whose sub-definitions are decoded. -/
def decodeObject (pointer : String) (members : Members) (parts : Parts) :
    Except LoadError Schema :=
  match Entries.get? "type" members with
  | none => .error (invalid pointer "missing \"type\"")
  | some (.string name) =>
    match KindName.ofText? name with
    | none => .error (invalid pointer (unknownType name))
    | some kind =>
      match decodeKind pointer parts kind with
      | .error e => .error e
      | .ok schema => decodeProps pointer members schema
  | some _ => .error (invalid pointer "\"type\" must be a string")

mutual

/-- The schema of the definition at `pointer`. -/
def decodeAt (pointer : String) : Json → Except LoadError Schema
  | .object members => decodeObject pointer members (decodeParts pointer members)
  | _ => .error (invalid pointer "definition must be an object")

/-- Everything that may be a sub-definition, decoded; what the kind does not need is not used. -/
def decodeParts (pointer : String) : List (String × Json) → Parts
  | [] => []
  | (name, value) :: rest =>
    let part :=
      if name = "elements" ∨ name = "keys" then
        Part.one (decodeAt (Pointer.child pointer name) value)
      else
        match value with
        | .object definitions =>
          if name = "attributes" then
            .named (decodeNamed (Pointer.child pointer name) definitions)
          else .other
        | .array definitions =>
          if name = "members" then .listed (decodeListed (Pointer.child pointer name) 0 definitions)
          else .other
        | _ => .other
    (name, part) :: decodeParts pointer rest

def decodeNamed (pointer : String) :
    List (String × Json) → Except LoadError (List (String × Schema))
  | [] => .ok []
  | (name, definition) :: rest =>
    match decodeAt (Pointer.child pointer name) definition with
    | .error e => .error e
    | .ok schema =>
      match decodeNamed pointer rest with
      | .error e => .error e
      | .ok others => .ok ((name, schema) :: others)

def decodeListed (pointer : String) (position : Nat) :
    List Json → Except LoadError (List Schema)
  | [] => .ok []
  | definition :: rest =>
    match decodeAt (Pointer.child pointer (toString position)) definition with
    | .error e => .error e
    | .ok schema =>
      match decodeListed pointer (position + 1) rest with
      | .error e => .error e
      | .ok others => .ok (schema :: others)

end

/-- The schema of a definition. -/
def decode (definition : Json) : Except LoadError Schema :=
  decodeAt "" definition

end Definition

/-- The document that a text holds. -/
def loadText (text : String) : Except LoadError Json :=
  match Json.read text with
  | .ok document => .ok document
  | .error e => .error (.invalidJson e)

/-- The schema that a text defines. -/
def loadDefinitionText [FragmentCompiler] (text : String) : Except LoadError Schema :=
  match loadText text with
  | .error e => .error e
  | .ok document => Definition.decode document

end ItemShape
