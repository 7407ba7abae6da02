import ItemShape.Binary64.Decimal

/-!
# ItemShape.Number

Numbers of documents: whole numbers of 64 bits, signed or unsigned, and finite doubles.

The two forms are kept apart. `equal` tells `1` from `1.0`, `same` compares both as doubles, and
`compare` orders them by exact value.
-/

namespace ItemShape

/-- The whole numbers that a signed or an unsigned word of 64 bits holds. -/
def Number.InRange (z : Int) : Prop :=
  -9223372036854775808 ≤ z ∧ z < 18446744073709551616

instance (z : Int) : Decidable (Number.InRange z) :=
  inferInstanceAs (Decidable (_ ∧ _))

inductive Number where
  | int (z : Int) (inRange : Number.InRange z)
  | float (x : Binary64)
  deriving DecidableEq

namespace Number

def ofInt? (z : Int) : Option Number :=
  if h : InRange z then some (.int z h) else none

/-- Nearest double. -/
def toBinary64? : Number → Option Binary64
  | .int z _ => Binary64.ofInt? z
  | .float x => some x

/-- Equality of form and value; the two zeros of the doubles are equal. -/
def equal : Number → Number → Bool
  | .int a _, .int b _ => a == b
  | .float x, .float y => x.equal y
  | _, _ => false

/-- Equality by magnitude, both sides taken as doubles. -/
def same (a b : Number) : Bool :=
  match a.toBinary64?, b.toBinary64? with
  | some x, some y => x.equal y
  | _, _ => a.equal b

/-- Signed numerator of the exact value. -/
def num : Number → Int
  | .int z _ => z
  | .float x => x.signedNum

/-- Denominator of the exact value. -/
def den : Number → Nat
  | .int _ _ => 1
  | .float x => x.den

/-- Order of the exact values. -/
def compare (a b : Number) : Ordering :=
  Ord.compare (a.num * b.den) (b.num * a.den)

/-- Text of a number in a document. -/
def render : Number → String
  | .int z _ => toString z
  | .float x => x.render

end Number
end ItemShape
