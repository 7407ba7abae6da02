import ItemShape.Json

/-!
# ItemShape.Json.Same

When two documents are the same.

Documents are compared part by part, in order: lists item by item, objects member by member, so
objects that list their members in different orders differ. Two numbers are the same if they have
the same exact value, whatever their forms.
-/

namespace ItemShape

/-- Equality of exact values. -/
def Number.sameValue (a b : Number) : Bool :=
  a.compare b == .eq

/-- Only doubles below zero and the zero of theirs that has a sign are negative. -/
def Number.isNegative : Number → Bool
  | .int z _ => decide (z < 0)
  | .float x => x.negative

/-- Equality of exact values that tells the two zeros apart. -/
def Number.sameSigned (a b : Number) : Bool :=
  a.sameValue b && a.isNegative == b.isNegative

namespace Json

mutual

/-- The documents differ in nothing but numbers that are alike. -/
def agree (alike : Number → Number → Bool) : Json → Json → Bool
  | .null, .null => true
  | .bool a, .bool b => a == b
  | .number a, .number b => alike a b
  | .string a, .string b => a == b
  | .array a, .array b => itemsAgree alike a b
  | .object a, .object b => membersAgree alike a b
  | _, _ => false

def itemsAgree (alike : Number → Number → Bool) : List Json → List Json → Bool
  | [], [] => true
  | a :: as, b :: bs => agree alike a b && itemsAgree alike as bs
  | _, _ => false

def membersAgree (alike : Number → Number → Bool) :
    List (String × Json) → List (String × Json) → Bool
  | [], [] => true
  | (name, a) :: as, (other, b) :: bs =>
    name == other && agree alike a b && membersAgree alike as bs
  | _, _ => false

end

def sameValue (a b : Json) : Bool :=
  agree Number.sameValue a b

/-- Some two of the documents are alike. -/
def hasPair (alike : Json → Json → Bool) : List Json → Bool
  | [] => false
  | item :: rest => rest.any (fun other => alike item other) || hasPair alike rest

/-- Some item is repeated. A list of more than 15 items may hold both zeros. -/
def hasDuplicates (items : List Json) : Bool :=
  if items.length ≤ 15 then hasPair sameValue items else hasPair (agree Number.sameSigned) items

end Json
end ItemShape
