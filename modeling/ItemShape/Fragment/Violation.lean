import ItemShape.Json.Text

/-!
# ItemShape.Fragment.Violation

What a fragment holds against a document, with its text.
-/

namespace ItemShape

/-- Types of documents; `integer` also covers doubles without a fraction. In alphabetical order. -/
inductive TypeName where
  | array
  | boolean
  | integer
  | null
  | number
  | object
  | string
  deriving DecidableEq

namespace TypeName

def all : List TypeName :=
  [array, boolean, integer, null, number, object, string]

def text : TypeName → String
  | array => "array"
  | boolean => "boolean"
  | integer => "integer"
  | null => "null"
  | number => "number"
  | object => "object"
  | string => "string"

def ofText? (text : String) : Option TypeName :=
  all.find? (fun name => name.text == text)

end TypeName

/-- Whether a number has no fraction. -/
def Number.isWhole (n : Number) : Bool :=
  n.num % n.den == 0

def TypeName.covers : TypeName → Json → Bool
  | array, .array _ => true
  | boolean, .bool _ => true
  | integer, .number n => n.isWhole
  | null, .null => true
  | number, .number _ => true
  | object, .object _ => true
  | string, .string _ => true
  | _, _ => false

/-- What is counted, with its singular and plural. -/
inductive Counted where
  | character
  | item
  | property
  deriving DecidableEq

def Counted.text (unit : Counted) (count : Nat) : String :=
  match unit with
  | character => if count = 1 then "character" else "characters"
  | item => if count = 1 then "item" else "items"
  | property => if count = 1 then "property" else "properties"

inductive Violation where
  | wrongType (names : List TypeName)
  | belowMinimum (limit : Number)
  | aboveMaximum (limit : Number)
  | notAboveMinimum (limit : Number)
  | notBelowMaximum (limit : Number)
  | notMultiple (divisor : Binary64)
  | tooFew (unit : Counted) (limit : Nat)
  | tooMany (unit : Counted) (limit : Nat)
  | noMatch (pattern : String)
  | notEnumerated (options : List Json)
  | notConstant (expected : Json)
  | repeatedItems
  | missingProperty (name : String)
  | unexpectedProperties (names : List String)
  | noneOf (keyword : String)
  | severalOf
  | forbidden (fragment : Json)
  | refused
  | invalidPattern

namespace Violation

def typesText (names : List TypeName) : String :=
  let quoted := names.map (fun name => "\"" ++ name.text ++ "\"")
  match quoted with
  | [single] => " is not of type " ++ single
  | several => " is not of types " ++ String.intercalate ", " several

def fewText (unit : Counted) : String :=
  match unit with
  | .character => " is shorter than "
  | .item | .property => " has less than "

def manyText (unit : Counted) : String :=
  match unit with
  | .character => " is longer than "
  | .item | .property => " has more than "

def unexpectedText (names : List String) : String :=
  let quoted := names.map (fun name => "'" ++ name ++ "'")
  let verb := if names.length = 1 then "was" else "were"
  "Additional properties are not allowed (" ++ String.intercalate ", " quoted ++ " " ++ verb ++
    " unexpected)"

/-- Text of a violation by the document `value`. -/
def message (value : Json) : Violation → String
  | wrongType names => value.render ++ typesText names
  | belowMinimum limit => value.render ++ " is less than the minimum of " ++ limit.render
  | aboveMaximum limit => value.render ++ " is greater than the maximum of " ++ limit.render
  | notAboveMinimum limit =>
    value.render ++ " is less than or equal to the minimum of " ++ limit.render
  | notBelowMaximum limit =>
    value.render ++ " is greater than or equal to the maximum of " ++ limit.render
  | notMultiple divisor => value.render ++ " is not a multiple of " ++ divisor.renderPlain
  | tooFew unit limit =>
    value.render ++ fewText unit ++ toString limit ++ " " ++ unit.text limit
  | tooMany unit limit =>
    value.render ++ manyText unit ++ toString limit ++ " " ++ unit.text limit
  | noMatch pattern => value.render ++ " does not match \"" ++ pattern ++ "\""
  | notEnumerated options => value.render ++ " is not one of " ++ (Json.array options).render
  | notConstant expected => expected.render ++ " was expected"
  | repeatedItems => value.render ++ " has non-unique elements"
  | missingProperty name => Json.quote name ++ " is a required property"
  | unexpectedProperties names => unexpectedText names
  | noneOf keyword =>
    value.render ++ " is not valid under any of the schemas listed in the '" ++ keyword ++
      "' keyword"
  | severalOf =>
    value.render ++
      " is valid under more than one of the schemas listed in the 'oneOf' keyword"
  | forbidden fragment => fragment.render ++ " is not allowed for " ++ value.render
  | refused => "False schema does not allow " ++ value.render
  | invalidPattern => value.render ++ " is not a \"regex\""

end Violation
end ItemShape
