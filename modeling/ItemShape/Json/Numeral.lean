import ItemShape.Json.Syntax

/-!
# ItemShape.Json.Numeral

Numbers in a document.

A whole number that fits a word of 64 bits stays exact. Any other numeral is read as a double: its
digits are taken into a significand as long as they fit a word, integer digits beyond that raise
the decimal exponent, fraction digits beyond it are dropped, and the significand is then scaled by
one power of ten (`Binary64.scaleByTen?`), with one rounding.
-/

namespace ItemShape
namespace Json

def digit? (c : Char) : Option Nat :=
  if '0' ≤ c ∧ c ≤ '9' then some (c.toNat - '0'.toNat) else none

def isDigit (c : Char) : Bool :=
  (digit? c).isSome

/-- Takes digits into `total` as long as it stays below `limit`. -/
def takeDigits (limit total : Nat) : List Char → Nat × List Char
  | [] => (total, [])
  | c :: rest =>
    match digit? c with
    | none => (total, c :: rest)
    | some d => if total * 10 + d < limit then takeDigits limit (total * 10 + d) rest
      else (total, c :: rest)

def wordLimit : Nat := 18446744073709551616

def exponentLimit : Nat := 2147483648

/-- The double `± significand * 10 ^ exponent`. -/
def scaled (negative : Bool) (significand : Nat) (exponent : Int) (rest : List Char) :
    Except Fault (Number × List Char) :=
  match Binary64.ofInt? significand with
  | none => .error (.here .numberOutOfRange rest)
  | some x =>
    match x.scaleByTen? exponent with
    | none => .error (.here .numberOutOfRange rest)
    | some y => .ok (.float (if negative then y.neg else y), rest)

/-- The exponent part, behind its letter. An exponent too large for a word of 32 bits is out of
range, unless it is negative or there is nothing to scale: then the number is zero. -/
def readExponent (negative : Bool) (significand : Nat) (exponent : Int) (text : List Char) :
    Except Fault (Number × List Char) :=
  let signed : Bool × List Char :=
    match text with
    | '+' :: rest => (false, rest)
    | '-' :: rest => (true, rest)
    | _ => (false, text)
  match signed.2 with
  | [] => .error (.here .endInValue [])
  | c :: rest =>
    if isDigit c then
      let taken := takeDigits exponentLimit 0 (c :: rest)
      let beyond := taken.2.dropWhile isDigit
      if beyond.length = taken.2.length then
        let total := if signed.1 then exponent - taken.1 else exponent + taken.1
        scaled negative significand total taken.2
      else if significand = 0 ∨ signed.1 then .ok (.float (Binary64.zero negative), beyond)
      else .error (.next .numberOutOfRange taken.2)
    else .error (.next .invalidNumber (c :: rest))

/-- The fraction part, behind the point. -/
def readFraction (negative : Bool) (significand : Nat) (exponent : Int) (text : List Char) :
    Except Fault (Number × List Char) :=
  match text with
  | [] => .error (.here .endInValue [])
  | c :: rest =>
    if isDigit c then
      let taken := takeDigits wordLimit significand (c :: rest)
      let places : Int := text.length - taken.2.length
      match taken.2.dropWhile isDigit with
      | 'e' :: after => readExponent negative taken.1 (exponent - places) after
      | 'E' :: after => readExponent negative taken.1 (exponent - places) after
      | after => scaled negative taken.1 (exponent - places) after
    else .error (.next .invalidNumber (c :: rest))

/-- A numeral without fraction and exponent. A negative zero and what no word holds are doubles. -/
def wholeNumber (negative : Bool) (significand : Nat) (rest : List Char) :
    Except Fault (Number × List Char) :=
  if negative ∧ significand = 0 then .ok (.float (Binary64.zero true), rest)
  else
    match Number.ofInt? (if negative then -(significand : Int) else significand) with
    | some n => .ok (n, rest)
    | none => scaled negative significand 0 rest

/-- What follows the integer digits, of which `beyond` did not fit the significand. -/
def readAfterDigits (negative : Bool) (significand beyond : Nat) (text : List Char) :
    Except Fault (Number × List Char) :=
  match text with
  | '.' :: rest => readFraction negative significand beyond rest
  | 'e' :: rest => readExponent negative significand beyond rest
  | 'E' :: rest => readExponent negative significand beyond rest
  | _ =>
    if beyond = 0 then wholeNumber negative significand text
    else scaled negative significand beyond text

/-- A numeral, behind its sign. -/
def readNumber (negative : Bool) (text : List Char) : Except Fault (Number × List Char) :=
  match text with
  | [] => .error (.here .endInValue [])
  | '0' :: rest =>
    match rest with
    | c :: _ =>
      if isDigit c then .error (.next .invalidNumber rest)
      else readAfterDigits negative 0 0 rest
    | [] => readAfterDigits negative 0 0 rest
  | c :: rest =>
    if isDigit c then
      let taken := takeDigits wordLimit 0 (c :: rest)
      let after := taken.2.dropWhile isDigit
      readAfterDigits negative taken.1 (taken.2.length - after.length) after
    else .error (.next .invalidNumber (c :: rest))

end Json
end ItemShape
