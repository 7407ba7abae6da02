import ItemShape.Json

/-!
# ItemShape.Json.Text

Written form of documents: `render` without blanks, `renderPretty` with one member or item a line
and an indent of two spaces a level. Member order and the form of numbers are kept.
-/

namespace ItemShape
namespace Json

/-! ## Strings -/

def hexDigit (n : Nat) : Char :=
  if n < 10 then Char.ofNat ('0'.toNat + n) else Char.ofNat ('a'.toNat + (n - 10))

/-- Quotes, backslashes and control characters are escaped; all else stands for itself. -/
def escapeChar (c : Char) : List Char :=
  match c with
  | '"' => ['\\', '"']
  | '\\' => ['\\', '\\']
  | '\x08' => ['\\', 'b']
  | '\x0c' => ['\\', 'f']
  | '\n' => ['\\', 'n']
  | '\r' => ['\\', 'r']
  | '\t' => ['\\', 't']
  | _ =>
    if c.toNat < 32 then ['\\', 'u', '0', '0', hexDigit (c.toNat / 16), hexDigit (c.toNat % 16)]
    else [c]

def quote (s : String) : String :=
  String.ofList ('"' :: s.toList.flatMap escapeChar ++ ['"'])

/-! ## Compact form -/

def arrayText (items : List String) : String :=
  "[" ++ String.intercalate "," items ++ "]"

def objectText (members : List String) : String :=
  "\x7b" ++ String.intercalate "," members ++ "\x7d"

def memberText (name value : String) : String :=
  quote name ++ ":" ++ value

def boolText (b : Bool) : String :=
  if b then "true" else "false"

mutual

def render : Json → String
  | .null => "null"
  | .bool b => boolText b
  | .number n => n.render
  | .string s => quote s
  | .array items => arrayText (renderItems items)
  | .object members => objectText (renderMembers members)

def renderItems : List Json → List String
  | [] => []
  | item :: rest => item.render :: renderItems rest

def renderMembers : List (String × Json) → List String
  | [] => []
  | (name, value) :: rest => memberText name value.render :: renderMembers rest

end

/-! ## Indented form -/

def newline (depth : Nat) : String :=
  "\n".pushn ' ' (2 * depth)

/-- One line per part between the brackets; nothing between them when there are no parts. -/
def block (left right : String) (depth : Nat) (parts : List String) : String :=
  if parts.isEmpty then left ++ right
  else
    left ++ newline (depth + 1) ++ String.intercalate ("," ++ newline (depth + 1)) parts ++
      newline depth ++ right

mutual

def prettyAt (depth : Nat) : Json → String
  | .null => "null"
  | .bool b => boolText b
  | .number n => n.render
  | .string s => quote s
  | .array items => block "[" "]" depth (prettyItems (depth + 1) items)
  | .object members => block "\x7b" "\x7d" depth (prettyMembers (depth + 1) members)

def prettyItems (depth : Nat) : List Json → List String
  | [] => []
  | item :: rest => prettyAt depth item :: prettyItems depth rest

def prettyMembers (depth : Nat) : List (String × Json) → List String
  | [] => []
  | (name, value) :: rest =>
    (quote name ++ ": " ++ prettyAt depth value) :: prettyMembers depth rest

end

def renderPretty (document : Json) : String :=
  prettyAt 0 document

end Json
end ItemShape
