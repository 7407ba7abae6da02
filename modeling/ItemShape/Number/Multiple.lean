import ItemShape.Number

/-!
# ItemShape.Number.Multiple

When a number is a multiple of a double, and when it is as good as another number.

`Number.isMultipleOf` divides exactly where the divisor has no fraction. Where it has one, the
rounded quotient must exceed its whole part by less than `2 ^ -52`; a quotient that is out of
range is formed anew from the divisor as a decimal fraction.
-/

namespace ItemShape
namespace Binary64

/-- The magnitude is less than the distance `2 ^ -52` of one to the next greater double. -/
def isTiny (x : Binary64) : Bool :=
  decide (x.num * Nat.pow 2 52 < x.den)

/-- Distance of two numbers, rounded; `none` when it is out of range. -/
def distance? (x y : Binary64) : Option Binary64 :=
  ofRatio? false (x.signedNum * y.den - y.signedNum * x.den).natAbs (x.den * y.den)

/-- The magnitude as a decimal fraction: the first product with a power of ten that is whole, over
that power, from the power of `places` on. Both the product and the power are rounded. -/
def decimal? (x : Binary64) : Nat → Nat → Option (Nat × Nat)
  | 0, _ => none
  | fuel + 1, places =>
    match powerOfTen? places with
    | none => none
    | some power =>
      match x.mul? power with
      | none => none
      | some product =>
        if product.num % product.den = 0 then
          some (product.num / product.den, power.num / power.den)
        else decimal? x fuel (places + 1)

end Binary64

namespace Number

/-- The number, taken without rounding, is a multiple of the divisor as a decimal fraction. All
numbers are multiples of a tiny divisor; any other one has at most 32 places. -/
def isDecimalMultipleOf (x divisor : Binary64) : Bool :=
  if divisor.isTiny then true
  else
    match divisor.decimal? 33 0 with
    | none => true
    | some (digits, power) => (x.num * power) % (x.den * digits) == 0

/-- The number, as a double, is a multiple of the divisor. Quotients below zero always count. -/
def isMultipleOf (n : Number) (divisor : Binary64) : Bool :=
  match n.toBinary64? with
  | none => false
  | some x =>
    if divisor.num % divisor.den = 0 then
      x.num % x.den == 0 && (x.num / x.den) % (divisor.num / divisor.den) == 0
    else
      match x.div? divisor with
      | none => isDecimalMultipleOf x divisor
      | some quotient =>
        quotient.negative ||
          decide ((quotient.num % quotient.den) * Nat.pow 2 52 < quotient.den)

/-- The rounded distance of two numbers, as doubles, is tiny. -/
def isClose (a b : Number) : Bool :=
  match a.toBinary64?, b.toBinary64? with
  | some x, some y =>
    match x.distance? y with
    | some distance => distance.isTiny
    | none => false
  | _, _ => false

end Number
end ItemShape
