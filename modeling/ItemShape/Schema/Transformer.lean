import ItemShape.Value

/-!
# ItemShape.Schema.Transformer

Encodings of scalar values for storage, with their way back.

A text with a delimiter can be put before or behind strings; other values stay as they are.
Decoding takes that text off again where it is present. Any other pair of functions is a `custom`
transformer.
-/

namespace ItemShape

inductive Transformer where
  | addPrefix (text delimiter : String)
  | addSuffix (text delimiter : String)
  | custom (name : String) (encoding decoding : Value → Value)

namespace Transformer

def defaultDelimiter : String :=
  "#"

def encode (transformer : Transformer) (value : Value) : Value :=
  match transformer with
  | addPrefix text delimiter =>
    match value with
    | .string s => .string (text ++ delimiter ++ s)
    | other => other
  | addSuffix text delimiter =>
    match value with
    | .string s => .string (s ++ delimiter ++ text)
    | other => other
  | custom _ encoding _ => encoding value

def decode (transformer : Transformer) (value : Value) : Value :=
  match transformer with
  | addPrefix text delimiter =>
    match value with
    | .string s =>
      match (text ++ delimiter).toList.isPrefixOf? s.toList with
      | some rest => .string (String.ofList rest)
      | none => .string s
    | other => other
  | addSuffix text delimiter =>
    match value with
    | .string s =>
      match (delimiter ++ text).toList.isSuffixOf? s.toList with
      | some rest => .string (String.ofList rest)
      | none => .string s
    | other => other
  | custom _ _ decoding => decoding value

end Transformer
end ItemShape
