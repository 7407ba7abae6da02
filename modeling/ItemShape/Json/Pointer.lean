/-!
# ItemShape.Json.Pointer

Pointers into a document, in the notation that separates reference tokens by `/` and writes `~0`
for `~` and `~1` for `/` inside a token.
-/

namespace ItemShape
namespace Pointer

def escapeChar (c : Char) : List Char :=
  if c = '~' then ['~', '0'] else if c = '/' then ['~', '1'] else [c]

def escape (token : String) : String :=
  String.ofList (token.toList.flatMap escapeChar)

/-- Pointer to the member `name` of what `pointer` points to. -/
def child (pointer name : String) : String :=
  pointer ++ "/" ++ escape name

/-- The pointer to the whole document is shown as a slash. -/
def display (pointer : String) : String :=
  if pointer.isEmpty then "/" else pointer

end Pointer
end ItemShape
