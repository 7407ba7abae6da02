/-!
# ItemShape.Binary64

Finite double-precision numbers, computed exactly.

A value is a sign, a significand of at most 53 bits and a binary exponent; `Canonical` picks one
pair per magnitude, so two values are equal as data exactly when they have the same sign and
magnitude. Arithmetic forms the exact ratio first and rounds it once (`ofRatio?`), to the nearest
representable value with a half going to the even significand; a result that is too large for the
format is `none`.
-/

namespace ItemShape

/-- The significand is below `2 ^ 53`, and it is at least `2 ^ 52` unless the exponent is already
the least one. -/
def Binary64.Canonical (significand : Nat) (exponent : Int) : Prop :=
  significand < Nat.pow 2 53 ∧ -1074 ≤ exponent ∧ exponent ≤ 971 ∧
    (Nat.pow 2 52 ≤ significand ∨ exponent = -1074)

instance (significand : Nat) (exponent : Int) :
    Decidable (Binary64.Canonical significand exponent) :=
  inferInstanceAs (Decidable (_ ∧ _ ∧ _ ∧ (_ ∨ _)))

/-- The number `± significand * 2 ^ exponent`; a zero keeps its sign. -/
structure Binary64 where
  negative : Bool
  significand : Nat
  exponent : Int
  canonical : Binary64.Canonical significand exponent
  deriving DecidableEq

namespace Binary64

def zero (negative : Bool) : Binary64 :=
  ⟨negative, 0, -1074, by decide⟩

def isZero (x : Binary64) : Bool :=
  x.significand == 0

/-- Numeric equality: the two zeros are equal, all other values only to themselves. -/
def equal (x y : Binary64) : Bool :=
  (x.isZero && y.isZero) || x == y

/-- The same magnitude with the other sign. -/
def neg (x : Binary64) : Binary64 :=
  { x with negative := !x.negative }

/-! ## Exact ratios -/

/-- Numerator of the magnitude as a ratio of natural numbers. -/
def num (x : Binary64) : Nat :=
  x.significand * Nat.pow 2 x.exponent.toNat

/-- Denominator of the magnitude as a ratio of natural numbers. -/
def den (x : Binary64) : Nat :=
  Nat.pow 2 (-x.exponent).toNat

/-- Signed numerator over `den`. -/
def signedNum (x : Binary64) : Int :=
  if x.negative then -(x.num : Int) else x.num

/-- A quotient rounded to the nearest natural number, a half to the even neighbour. -/
def divNearestEven (n d : Nat) : Nat :=
  let quotient := n / d
  let remainder := n % d
  if 2 * remainder < d then quotient
  else if d < 2 * remainder then quotient + 1
  else if quotient % 2 = 0 then quotient
  else quotient + 1

/-- The exponent at which `n / d` has a significand of 53 bits, or the least exponent. -/
def scale (n d : Nat) : Int :=
  let guess : Int := (Nat.log2 n : Int) - (Nat.log2 d : Int) - 52
  let exact :=
    if n * Nat.pow 2 (-guess).toNat < d * Nat.pow 2 guess.toNat * Nat.pow 2 52 then guess - 1
    else guess
  max exact (-1074)

/-- The value with these parts, if they are canonical. -/
def ofParts? (negative : Bool) (significand : Nat) (exponent : Int) : Option Binary64 :=
  if h : Canonical significand exponent then some ⟨negative, significand, exponent, h⟩ else none

/-- The ratio `± n / d` rounded to nearest, ties to even; `none` when it is out of range. -/
def ofRatio? (negative : Bool) (n d : Nat) : Option Binary64 :=
  if n = 0 then some (zero negative)
  else
    let exponent := scale n d
    let significand :=
      divNearestEven (n * Nat.pow 2 (-exponent).toNat) (d * Nat.pow 2 exponent.toNat)
    if significand = Nat.pow 2 53 then ofParts? negative (Nat.pow 2 52) (exponent + 1)
    else ofParts? negative significand exponent

def ofInt? (z : Int) : Option Binary64 :=
  ofRatio? (decide (z < 0)) z.natAbs 1

def mul? (x y : Binary64) : Option Binary64 :=
  ofRatio? (x.negative != y.negative) (x.num * y.num) (x.den * y.den)

/-- Quotient by a divisor other than zero. -/
def div? (x y : Binary64) : Option Binary64 :=
  ofRatio? (x.negative != y.negative) (x.num * y.den) (x.den * y.num)

/-! ## Decimal scaling -/

/-- The powers of ten up to `10 ^ 308` are the finite ones. -/
def powerOfTen? (n : Nat) : Option Binary64 :=
  ofRatio? false (Nat.pow 10 n) 1

/-- One step of scaling by a power of ten: a product for a positive exponent, a quotient for a
negative one, each rounded once. -/
def scaleOnce? (x : Binary64) (exponent : Int) : Option Binary64 :=
  match powerOfTen? exponent.natAbs with
  | none => none
  | some power => if 0 ≤ exponent then mul? x power else div? x power

/-- Division by `10 ^ 308`, repeated until nothing is left of `x` or the steps are used up. -/
def shrink? : Nat → Binary64 → Option Binary64
  | 0, x => some x
  | steps + 1, x =>
    if x.isZero then some x
    else
      match scaleOnce? x (-308) with
      | none => none
      | some smaller => shrink? steps smaller

/-- `x * 10 ^ exponent` as decimal text is read: an exponent below the range of the powers is first
brought into it in steps of `308`, each rounded; one above it is out of range. -/
def scaleByTen? (x : Binary64) (exponent : Int) : Option Binary64 :=
  if exponent.natAbs ≤ 308 then scaleOnce? x exponent
  else if x.isZero then some x
  else if 0 ≤ exponent then none
  else
    let steps := (exponent.natAbs - 1) / 308
    match shrink? steps x with
    | none => none
    | some smaller => scaleOnce? smaller (exponent + 308 * steps)

end Binary64
end ItemShape
