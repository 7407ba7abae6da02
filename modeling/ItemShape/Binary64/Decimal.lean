import ItemShape.Binary64

/-!
# ItemShape.Binary64.Decimal

Decimal text of a double: the fewest digits that read back as the same value.

`candidate?` looks at the two neighbours of a value on the grid of multiples of `10 ^ k` and keeps
those inside the interval of reals that round to the value. `shortest` takes the coarsest grid
with a hit; of two hits the nearer wins, and an exact tie goes to the even digit.
-/

namespace ItemShape
namespace Binary64

/-- A positive decimal: `coefficient * 10 ^ exponent`. -/
structure Decimal where
  coefficient : Nat
  exponent : Int

/-- Distance to the lower end of the rounding interval, in quarters of the last binary place: the
neighbour below a power of two is twice as close. -/
def gapBelow (x : Binary64) : Nat :=
  if x.significand = Nat.pow 2 52 ∧ x.exponent ≠ -1074 then 1 else 2

/-- The neighbour of `x` on the grid `10 ^ k` that reads back as `x`. -/
def candidate? (x : Binary64) (k : Int) : Option Nat :=
  let up := Nat.pow 2 (x.exponent - 2).toNat * Nat.pow 10 (-k).toNat
  let unit := Nat.pow 2 (2 - x.exponent).toNat * Nat.pow 10 k.toNat
  let value := 4 * x.significand * up
  let least := (4 * x.significand - x.gapBelow) * up
  let greatest := (4 * x.significand + 2) * up
  let inside (c : Nat) : Bool :=
    if x.significand % 2 = 0 then least ≤ c * unit && c * unit ≤ greatest
    else least < c * unit && c * unit < greatest
  let below := value / unit
  let above := below + 1
  match inside below, inside above with
  | false, false => none
  | true, false => some below
  | false, true => some above
  | true, true =>
    let toBelow := value - below * unit
    let toAbove := above * unit - value
    if toBelow < toAbove then some below
    else if toAbove < toBelow then some above
    else if below % 2 = 0 then some below
    else some above

/-- First hit going from the grid `10 ^ k` to finer ones. -/
def shortestFrom (x : Binary64) : Nat → Int → Decimal
  | 0, k => ⟨0, k⟩
  | grids + 1, k =>
    match candidate? x k with
    | some c => ⟨c, k⟩
    | none => shortestFrom x grids (k - 1)

/-- Shortest decimal of the magnitude of a value other than zero. The first grid is coarser than
the value, and seventeen digits always suffice, so the search ends within twenty-four grids. -/
def shortest (x : Binary64) : Decimal :=
  let top : Int := ((Nat.log2 x.significand : Int) + 1 + x.exponent) * 30103 / 100000 + 2
  shortestFrom x 24 top

/-! ## Notation -/

def zeros (n : Nat) : List Char :=
  List.replicate n '0'

/-- Positional notation of `digits * 10 ^ exponent`; `wholeEnd` closes a number without fraction
digits. -/
def positional (digits : List Char) (exponent : Int) (wholeEnd : List Char) : List Char :=
  if 0 ≤ exponent then digits ++ zeros exponent.toNat ++ wholeEnd
  else
    let places := (-exponent).toNat
    if places < digits.length then
      digits.take (digits.length - places) ++ ['.'] ++ digits.drop (digits.length - places)
    else ['0', '.'] ++ zeros (places - digits.length) ++ digits

/-- Scientific notation: one digit before the point, a signed exponent. -/
def scientific (digits : List Char) (leading : Int) : List Char :=
  let fraction := digits.drop 1
  let mantissa := digits.take 1 ++ (if fraction.isEmpty then [] else '.' :: fraction)
  let sign := if leading < 0 then '-' else '+'
  mantissa ++ ['e', sign] ++ Nat.toDigits 10 leading.natAbs

/-- Document notation of a magnitude: positional while the leading digit stands between the fifth
decimal place and the sixteenth integer place, scientific beyond; a fraction or an exponent is
always written. -/
def magnitudeText (x : Binary64) : List Char :=
  if x.isZero then ['0', '.', '0']
  else
    let decimal := x.shortest
    let digits := Nat.toDigits 10 decimal.coefficient
    let leading := decimal.exponent + (digits.length : Int) - 1
    if -5 ≤ leading ∧ leading ≤ 15 then positional digits decimal.exponent ['.', '0']
    else scientific digits leading

/-- Text of a number in a document. -/
def render (x : Binary64) : String :=
  String.ofList (if x.negative then '-' :: x.magnitudeText else x.magnitudeText)

/-- Plain positional text, without a fraction for whole numbers. -/
def renderPlain (x : Binary64) : String :=
  let magnitude :=
    if x.isZero then ['0']
    else positional (Nat.toDigits 10 x.shortest.coefficient) x.shortest.exponent []
  String.ofList (if x.negative then '-' :: magnitude else magnitude)

end Binary64
end ItemShape
