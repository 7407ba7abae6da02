import ItemShape.Json.Text
import ItemShape.Value

/-!
# ItemShape.Value.Document

Values as documents.

`toJson` writes an operation as an object with one member, named by the key of its tag. Documents
are read in two ways: `ofJson` takes every object for a map, `ofOperationJson` recognises the
one-member notation. `render` writes the compact text of a value directly.
-/

namespace ItemShape
namespace Value

/-! ## Writing -/

mutual

def toJson : Value → Json
  | .null => .null
  | .bool b => .bool b
  | .number n => .number n
  | .string s => .string s
  | .list items => .array (itemsToJson items)
  | .map entries => .object (entriesToJson entries)
  | .op (.add operand) => .object [(OpTag.key .add, operand.toJson)]
  | .op (.delete operand) => .object [(OpTag.key .delete, operand.toJson)]
  | .op (.set operand) => .object [(OpTag.key .set, operand.toJson)]
  | .op .remove => .object [(OpTag.key .remove, .null)]
  | .op (.get source none) => .object [(OpTag.key .get, .array [.string source])]
  | .op (.get source (some fallback)) =>
    .object [(OpTag.key .get, .array [.string source, fallback.toJson])]

def itemsToJson : List Value → List Json
  | [] => []
  | item :: rest => item.toJson :: itemsToJson rest

def entriesToJson : List (String × Value) → List (String × Json)
  | [] => []
  | (name, value) :: rest => (name, value.toJson) :: entriesToJson rest

end

/-- Document form of what stands under the key of an operation. -/
def payloadToJson : Operation Value → Json
  | .add operand | .delete operand | .set operand => operand.toJson
  | .remove => .null
  | .get source none => .array [.string source]
  | .get source (some fallback) => .array [.string source, fallback.toJson]

mutual

/-- Compact text, written without building the document; only what stands under the key of an
operation is. -/
def render : Value → String
  | .null => "null"
  | .bool b => Json.boolText b
  | .number n => n.render
  | .string s => Json.quote s
  | .list items => Json.arrayText (renderItems items)
  | .map entries => Json.objectText (renderEntries entries)
  | .op operation =>
    Json.objectText [Json.memberText operation.tag.key (payloadToJson operation).render]

def renderItems : List Value → List String
  | [] => []
  | item :: rest => item.render :: renderItems rest

def renderEntries : List (String × Value) → List String
  | [] => []
  | (name, value) :: rest => Json.memberText name value.render :: renderEntries rest

end

/-! ## Reading -/

mutual

/-- Objects are maps, whatever their members are called. -/
def ofJson : Json → Value
  | .null => .null
  | .bool b => .bool b
  | .number n => .number n
  | .string s => .string s
  | .array items => .list (itemsOfJson items)
  | .object members => .map (entriesOfJson members)

def itemsOfJson : List Json → List Value
  | [] => []
  | item :: rest => ofJson item :: itemsOfJson rest

def entriesOfJson : List (String × Json) → List (String × Value)
  | [] => []
  | (name, value) :: rest => (name, ofJson value) :: entriesOfJson rest

end

mutual

/-- An object whose only member is named by the key of an operation is that operation, and its
payload is read the same way; the payload of a removal is ignored. A reference needs a list of a
name and at most one fallback; any other object under its key is a map. -/
def ofOperationJson : Json → Value
  | .null => .null
  | .bool b => .bool b
  | .number n => .number n
  | .string s => .string s
  | .array items => .list (itemsOfOperationJson items)
  | .object [(name, payload)] =>
    match OpTag.ofKey? name with
    | some .add => .op (.add (ofOperationJson payload))
    | some .delete => .op (.delete (ofOperationJson payload))
    | some .set => .op (.set (ofOperationJson payload))
    | some .remove => .op .remove
    | some .get =>
      match payload with
      | .array [.string source] => .op (.get source none)
      | .array [.string source, fallback] =>
        .op (.get source (some (ofOperationJson fallback)))
      | other => .map [(name, ofOperationJson other)]
    | none => .map [(name, ofOperationJson payload)]
  | .object members => .map (entriesOfOperationJson members)

def itemsOfOperationJson : List Json → List Value
  | [] => []
  | item :: rest => ofOperationJson item :: itemsOfOperationJson rest

def entriesOfOperationJson : List (String × Json) → List (String × Value)
  | [] => []
  | (name, value) :: rest => (name, ofOperationJson value) :: entriesOfOperationJson rest

end

end Value
end ItemShape
