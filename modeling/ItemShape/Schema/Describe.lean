import ItemShape.Schema
import ItemShape.Text.Quoted

/-!
# ItemShape.Schema.Describe

One-line descriptions of values, transformers and properties, for logs and diagnostics.

Functions cannot be shown: of defaults, links and validators only the modes that have one are
listed, and a custom transformer is shown by its name.
-/

namespace ItemShape

namespace Describe

def optional (text : Option String) : String :=
  match text with
  | none => "None"
  | some inner => "Some(" ++ inner ++ ")"

def list (items : List String) : String :=
  "[" ++ String.intercalate ", " items ++ "]"

/-- A name, and named fields in braces. -/
def record (name : String) (fields : List (String × String)) : String :=
  let texts := fields.map (fun field => field.1 ++ ": " ++ field.2)
  name ++ " \x7b " ++ String.intercalate ", " texts ++ " \x7d"

def bool (b : Bool) : String :=
  if b then "true" else "false"

end Describe

namespace Value

mutual

def describe : Value → String
  | .null => "Null"
  | .bool b => "Bool(" ++ Describe.bool b ++ ")"
  | .number n => "Number(Number(" ++ n.render ++ "))"
  | .string s => "String(" ++ Quoted.encode s ++ ")"
  | .list items => "List(" ++ Describe.list (describeItems items) ++ ")"
  | .map entries =>
    "Map(\x7b" ++ String.intercalate ", " (describeEntries entries) ++ "\x7d)"
  | .op (.add operand) => "Op(Add(" ++ operand.describe ++ "))"
  | .op (.delete operand) => "Op(Delete(" ++ operand.describe ++ "))"
  | .op (.set operand) => "Op(Set(" ++ operand.describe ++ "))"
  | .op .remove => "Op(Remove)"
  | .op (.get source none) =>
    "Op(Get(" ++ Describe.record "Reference"
      [("attribute", Quoted.encode source), ("fallback", "None")] ++ "))"
  | .op (.get source (some fallback)) =>
    "Op(Get(" ++ Describe.record "Reference"
      [("attribute", Quoted.encode source), ("fallback", "Some(" ++ fallback.describe ++ ")")]
      ++ "))"

def describeItems : List Value → List String
  | [] => []
  | item :: rest => item.describe :: describeItems rest

def describeEntries : List (String × Value) → List String
  | [] => []
  | (name, value) :: rest =>
    (Quoted.encode name ++ ": " ++ value.describe) :: describeEntries rest

end

end Value

def Transformer.describe : Transformer → String
  | addPrefix text delimiter =>
    Describe.record "Prefix"
      [("prefix", Quoted.encode text), ("delimiter", Quoted.encode delimiter)]
  | addSuffix text delimiter =>
    Describe.record "Suffix"
      [("suffix", Quoted.encode text), ("delimiter", Quoted.encode delimiter)]
  | custom name _ _ => name

def Required.describe : Required → String
  | atLeastOnce => "AtLeastOnce"
  | always => "Always"
  | never => "Never"

/-- The modes that have a value. -/
def PerMode.describe {α : Type} (values : PerMode α) : String :=
  Describe.list (values.modes.map (fun mode => Quoted.encode mode.name))

/-- How a default was given, and what it resolves to. -/
def Default.describe : Default → String
  | value v => "Value(" ++ v.describe ++ ")"
  | producer _ => "Producer(..)"

def Props.describe (props : Props) : String :=
  Describe.record "AttributeProps"
    [("required", props.required.describe),
      ("hidden", Describe.bool props.hidden),
      ("key", Describe.bool props.key),
      ("saved_as", Describe.optional (props.savedAs.map Quoted.encode)),
      ("enumerated",
        Describe.optional (props.enumerated.map (fun vs => Describe.list (vs.map Value.describe)))),
      ("defaults", props.defaults.describe),
      ("links", props.links.describe),
      ("validators", props.validators.describe),
      ("transformer", Describe.optional (props.transformer.map Transformer.describe))]

end ItemShape
