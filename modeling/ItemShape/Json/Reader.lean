import ItemShape.Json.Numeral

/-!
# ItemShape.Json.Reader

Reading documents from text: `Json.read`.

Blanks are spaces, tabs and line ends. At most `depthLimit` containers may be open at once. A
repeated member name keeps its first place and takes the last value.
-/

namespace ItemShape
namespace Json

def depthLimit : Nat := 127

def isBlank (c : Char) : Bool :=
  c == ' ' || c == '\t' || c == '\n' || c == '\r'

def skipBlanks (text : List Char) : List Char :=
  text.dropWhile isBlank

/-! ## Words -/

/-- The rest of a word whose first letter has been taken. -/
def readWord (value : Json) : List Char → List Char → Except Fault (Json × List Char)
  | [], text => .ok (value, text)
  | _ :: _, [] => .error (.here .endInValue [])
  | letter :: letters, c :: rest =>
    if c = letter then readWord value letters rest else .error (.next .expectedWord (c :: rest))

/-! ## Strings -/

def hexDigit? (c : Char) : Option Nat :=
  if '0' ≤ c ∧ c ≤ '9' then some (c.toNat - '0'.toNat)
  else if 'a' ≤ c ∧ c ≤ 'f' then some (c.toNat - 'a'.toNat + 10)
  else if 'A' ≤ c ∧ c ≤ 'F' then some (c.toNat - 'A'.toNat + 10)
  else none

/-- Value of four hexadecimal digits. -/
def codeUnit? (a b c d : Char) : Option Nat :=
  match hexDigit? a, hexDigit? b, hexDigit? c, hexDigit? d with
  | some w, some x, some y, some z => some (w * 4096 + x * 256 + y * 16 + z)
  | _, _, _, _ => none

def isLeading (unit : Nat) : Bool :=
  decide (0xD800 ≤ unit ∧ unit ≤ 0xDBFF)

def isTrailing (unit : Nat) : Bool :=
  decide (0xDC00 ≤ unit ∧ unit ≤ 0xDFFF)

/-- The character that two surrogates stand for. -/
def joinSurrogates (leading trailing : Nat) : Char :=
  Char.ofNat (0x10000 + (leading - 0xD800) * 1024 + (trailing - 0xDC00))

/-- Meaning of the letter of a short escape. -/
def shortEscape? (c : Char) : Option Char :=
  match c with
  | '"' => some '"'
  | '\\' => some '\\'
  | '/' => some '/'
  | 'b' => some '\x08'
  | 'f' => some '\x0c'
  | 'n' => some '\n'
  | 'r' => some '\r'
  | 't' => some '\t'
  | _ => none

/-- Fault of a numeric escape whose four bytes are not four digits. -/
def escapeFault (digits : List Char) : Fault :=
  if byteCount digits < 4 then .here .endInString [] else ⟨.invalidEscape, digits, 4⟩

/-- Fault of a leading surrogate that no second escape follows. -/
def surrogateFault (text : List Char) : Fault :=
  match text with
  | [] => .here .endInString []
  | ['\\'] => .here .endInString []
  | '\\' :: 'u' :: digits => escapeFault digits
  | '\\' :: rest => .next .unfinishedSurrogate rest
  | _ => .next .unfinishedSurrogate text

/-- The rest of a string; `done` holds what has been read, last character first. -/
def readString (done : List Char) : List Char → Except Fault (String × List Char)
  | [] => .error (.here .endInString [])
  | '"' :: rest => .ok (String.ofList done.reverse, rest)
  | '\\' :: 'u' :: digits =>
    match digits with
    | a :: b :: c :: d :: rest =>
      match codeUnit? a b c d with
      | none => .error (escapeFault digits)
      | some unit =>
        if isTrailing unit then .error (.here .loneSurrogate rest)
        else if isLeading unit then
          match rest with
          | '\\' :: 'u' :: e :: f :: g :: h :: after =>
            match codeUnit? e f g h with
            | none => .error (surrogateFault rest)
            | some second =>
              if isTrailing second then readString (joinSurrogates unit second :: done) after
              else .error (.here .loneSurrogate after)
          | _ => .error (surrogateFault rest)
        else readString (Char.ofNat unit :: done) rest
    | _ => .error (escapeFault digits)
  | '\\' :: c :: rest =>
    match shortEscape? c with
    | some meaning => readString (meaning :: done) rest
    | none => .error (.next .invalidEscape (c :: rest))
  | ['\\'] => .error (.here .endInString [])
  | c :: rest =>
    if c.toNat < 32 then .error (.next .controlCharacter (c :: rest))
    else readString (c :: done) rest

/-! ## Containers

`readItem` reads one value. Every round takes at least one character, so as many rounds as the text
has characters are enough. -/

/-- Items up to the closing bracket. -/
def readItems (readItem : List Char → Except Fault (Json × List Char)) :
    Nat → List Json → List Char → Except Fault (Json × List Char)
  | 0, _, text => .error (.next .endInList text)
  | rounds + 1, done, text =>
    let item (start : List Char) : Except Fault (Json × List Char) :=
      match readItem start with
      | .error fault => .error fault
      | .ok (value, rest) => readItems readItem rounds (value :: done) rest
    match skipBlanks text with
    | [] => .error (.next .endInList [])
    | ']' :: rest => .ok (.array done.reverse, rest)
    | c :: rest =>
      if done.isEmpty then item (c :: rest)
      else if c = ',' then
        match skipBlanks rest with
        | [] => .error (.next .endInValue [])
        | ']' :: after => .error (.next .trailingComma (']' :: after))
        | start => item start
      else .error (.next .expectedListEnd (c :: rest))

/-- Name, colon and value of one member, behind the opening quote. -/
def readMember (readItem : List Char → Except Fault (Json × List Char)) (text : List Char) :
    Except Fault ((String × Json) × List Char) :=
  match readString [] text with
  | .error fault => .error fault
  | .ok (name, rest) =>
    match skipBlanks rest with
    | [] => .error (.next .endInObject [])
    | ':' :: start =>
      match readItem start with
      | .error fault => .error fault
      | .ok (value, after) => .ok ((name, value), after)
    | other => .error (.next .expectedColon other)

/-- Members up to the closing brace. -/
def readMembers (readItem : List Char → Except Fault (Json × List Char)) :
    Nat → List (String × Json) → List Char → Except Fault (Json × List Char)
  | 0, _, text => .error (.next .endInObject text)
  | rounds + 1, done, text =>
    let member (start : List Char) : Except Fault (Json × List Char) :=
      match readMember readItem start with
      | .error fault => .error fault
      | .ok (entry, rest) => readMembers readItem rounds (entry :: done) rest
    match skipBlanks text with
    | [] => .error (.next .endInObject [])
    | '}' :: rest => .ok (.object (Entries.ofList done.reverse), rest)
    | c :: rest =>
      if done.isEmpty then
        if c = '"' then member rest else .error (.next .nameNotString (c :: rest))
      else if c = ',' then
        match skipBlanks rest with
        | [] => .error (.next .endInValue [])
        | '"' :: start => member start
        | '}' :: after => .error (.next .trailingComma ('}' :: after))
        | other => .error (.next .nameNotString other)
      else .error (.next .expectedObjectEnd (c :: rest))

/-! ## Documents -/

/-- One value; `inner` reads the values inside a container, if one may still be opened. -/
def readValueWith (inner : Option (List Char → Except Fault (Json × List Char)))
    (text : List Char) : Except Fault (Json × List Char) :=
  match skipBlanks text with
  | [] => .error (.next .endInValue [])
  | 'n' :: rest => readWord .null ['u', 'l', 'l'] rest
  | 't' :: rest => readWord (.bool true) ['r', 'u', 'e'] rest
  | 'f' :: rest => readWord (.bool false) ['a', 'l', 's', 'e'] rest
  | '"' :: rest =>
    match readString [] rest with
    | .error fault => .error fault
    | .ok (s, after) => .ok (.string s, after)
  | '-' :: rest =>
    match readNumber true rest with
    | .error fault => .error fault
    | .ok (n, after) => .ok (.number n, after)
  | '[' :: rest =>
    match inner with
    | none => .error (.next .tooDeep ('[' :: rest))
    | some readItem => readItems readItem (rest.length + 1) [] rest
  | '{' :: rest =>
    match inner with
    | none => .error (.next .tooDeep ('{' :: rest))
    | some readItem => readMembers readItem (rest.length + 1) [] rest
  | c :: rest =>
    if isDigit c then
      match readNumber false (c :: rest) with
      | .error fault => .error fault
      | .ok (n, after) => .ok (.number n, after)
    else .error (.next .expectedValue (c :: rest))

/-- One value in which `depth` containers may be opened inside each other. -/
def readValue : Nat → List Char → Except Fault (Json × List Char)
  | 0 => readValueWith none
  | depth + 1 => readValueWith (some (readValue depth))

/-- The document a text holds, and nothing but blanks around it. -/
def read (text : String) : Except SyntaxError Json :=
  match readValue depthLimit text.toList with
  | .error fault => .error (fault.locate text)
  | .ok (document, rest) =>
    match skipBlanks rest with
    | [] => .ok document
    | other => .error ((Fault.next .trailingCharacters other).locate text)

end Json
end ItemShape
