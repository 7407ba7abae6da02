import ItemShape.Json

/-!
# ItemShape.Json.Syntax

Why a text is not a document, and where.

A position counts lines from one and, inside a line, bytes from zero. An issue found by looking at
the next byte stands behind that byte; an issue found after taking bytes stands behind the last one
taken.
-/

namespace ItemShape
namespace Json

inductive SyntaxIssue where
  | endInValue
  | endInList
  | endInObject
  | endInString
  | expectedValue
  | expectedWord
  | expectedColon
  | expectedListEnd
  | expectedObjectEnd
  | nameNotString
  | trailingComma
  | trailingCharacters
  | tooDeep
  | invalidNumber
  | numberOutOfRange
  | controlCharacter
  | invalidEscape
  | loneSurrogate
  | unfinishedSurrogate
  deriving DecidableEq

def SyntaxIssue.text : SyntaxIssue → String
  | endInValue => "EOF while parsing a value"
  | endInList => "EOF while parsing a list"
  | endInObject => "EOF while parsing an object"
  | endInString => "EOF while parsing a string"
  | expectedValue => "expected value"
  | expectedWord => "expected ident"
  | expectedColon => "expected `:`"
  | expectedListEnd => "expected `,` or `]`"
  | expectedObjectEnd => "expected `,` or `\x7d`"
  | nameNotString => "key must be a string"
  | trailingComma => "trailing comma"
  | trailingCharacters => "trailing characters"
  | tooDeep => "recursion limit exceeded"
  | invalidNumber => "invalid number"
  | numberOutOfRange => "number out of range"
  | controlCharacter => "control character (\\u0000-\\u001F) found while parsing a string"
  | invalidEscape => "invalid escape"
  | loneSurrogate => "lone leading surrogate in hex escape"
  | unfinishedSurrogate => "unexpected end of hex escape"

structure SyntaxError where
  issue : SyntaxIssue
  line : Nat
  column : Nat
  deriving DecidableEq

def SyntaxError.message (e : SyntaxError) : String :=
  e.issue.text ++ " at line " ++ toString e.line ++ " column " ++ toString e.column

/-- Line and column after the first bytes of a text. -/
def position (taken : List UInt8) : Nat × Nat :=
  taken.foldl (fun place byte => if byte = 10 then (place.1 + 1, 0) else (place.1, place.2 + 1))
    (1, 0)

/-- An issue, seen with `rest` still unread and `ahead` bytes of it looked at or taken. -/
structure Fault where
  issue : SyntaxIssue
  rest : List Char
  ahead : Nat

/-- Bytes of a text. -/
def byteCount (text : List Char) : Nat :=
  text.foldl (fun total c => total + c.utf8Size) 0

/-- Issue with the character that comes next. -/
def Fault.next (issue : SyntaxIssue) (rest : List Char) : Fault :=
  ⟨issue, rest, 1⟩

/-- Issue with what has been taken. -/
def Fault.here (issue : SyntaxIssue) (rest : List Char) : Fault :=
  ⟨issue, rest, 0⟩

/-- The error of a fault in `text`; a fault at the end stands behind the last byte. -/
def Fault.locate (text : String) (fault : Fault) : SyntaxError :=
  let taken := text.utf8ByteSize - byteCount fault.rest + fault.ahead
  let place := position (text.toUTF8.toList.take taken)
  ⟨fault.issue, place.1, place.2⟩

end Json
end ItemShape
