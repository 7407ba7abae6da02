/-!
# ItemShape.Fragment.Pattern

Regular expressions of fragments: a sequence of repeated character tests, which may be tied to the
start (`^`) and to the end (`$`) of the text.

A test is a character, a dot for any character of the line, `\d`, `\w` or `\s`, or a class in
brackets with ranges. It may be followed by `*`, `+`, `?` or a count in braces. A pattern that is
not tied to the start is looked for at every place.
-/

namespace ItemShape

inductive CharTest where
  | char (c : Char)
  | anyOfLine
  | ranges (negated : Bool) (bounds : List (Char × Char))
  deriving DecidableEq

def CharTest.accepts : CharTest → Char → Bool
  | char c, other => c == other
  | anyOfLine, other => other != '\n'
  | ranges negated bounds, other =>
    negated != bounds.any (fun range => decide (range.1 ≤ other ∧ other ≤ range.2))

/-- A test that holds for `least` characters in a row and up to `most`, if that is given. -/
structure Repeated where
  test : CharTest
  least : Nat
  most : Option Nat
  deriving DecidableEq

structure Pattern where
  fromStart : Bool
  parts : List Repeated
  toEnd : Bool
  deriving DecidableEq

namespace Pattern

/-! ## Matching -/

/-- The rests of a text after one, two, and more characters that a test accepts in a row. -/
def runs (test : CharTest) : List Char → List (List Char)
  | [] => []
  | c :: rest => if test.accepts c then rest :: runs test rest else []

/-- The rests of a text after a repeated test. -/
def restsAfter (part : Repeated) (text : List Char) : List (List Char) :=
  let rests := (text :: runs part.test text).drop part.least
  match part.most with
  | none => rests
  | some most => rests.take (most + 1 - part.least)

/-- The rests of a text after a sequence of parts. -/
def restsAfterAll : List Repeated → List Char → List (List Char)
  | [], text => [text]
  | part :: parts, text => (restsAfter part text).flatMap (restsAfterAll parts)

/-- The pattern matches at the start of the text. -/
def matchesHere (pattern : Pattern) (text : List Char) : Bool :=
  (restsAfterAll pattern.parts text).any (fun rest => !pattern.toEnd || rest.isEmpty)

def matchesIn (pattern : Pattern) : List Char → Bool
  | [] => pattern.matchesHere []
  | c :: rest =>
    pattern.matchesHere (c :: rest) || (!pattern.fromStart && matchesIn pattern rest)

def matchesText (pattern : Pattern) (text : String) : Bool :=
  pattern.matchesIn text.toList

/-! ## Reading -/

def digits : List (Char × Char) :=
  [('0', '9')]

def wordCharacters : List (Char × Char) :=
  [('a', 'z'), ('A', 'Z'), ('0', '9'), ('_', '_')]

def blanks : List (Char × Char) :=
  [(' ', ' '), ('\t', '\r')]

/-- The test that a backslash and a letter stand for. -/
def escapedTest (c : Char) : CharTest :=
  match c with
  | 'd' => .ranges false digits
  | 'D' => .ranges true digits
  | 'w' => .ranges false wordCharacters
  | 'W' => .ranges true wordCharacters
  | 's' => .ranges false blanks
  | 'S' => .ranges true blanks
  | 'n' => .char '\n'
  | 'r' => .char '\r'
  | 't' => .char '\t'
  | other => .char other

/-- The first ranges of a class and the rest. A hyphen before the closing bracket is a character. -/
def readRanges (text : List Char) : Option (List (Char × Char) × List Char) :=
  match text with
  | [] => none
  | '\\' :: c :: rest =>
    match escapedTest c with
    | .ranges false bounds => some (bounds, rest)
    | .char meaning => some ([(meaning, meaning)], rest)
    | _ => none
  | low :: '-' :: high :: rest =>
    if high = ']' then some ([(low, low)], '-' :: high :: rest)
    else if low ≤ high then some ([(low, high)], rest)
    else none
  | c :: rest => some ([(c, c)], rest)

/-- The ranges of a class up to its closing bracket; every round takes a character. -/
def readClass : Nat → List (Char × Char) → List Char → Option (List (Char × Char) × List Char)
  | 0, _, _ => none
  | rounds + 1, done, text =>
    match text with
    | ']' :: rest => some (done, rest)
    | _ =>
      match readRanges text with
      | none => none
      | some (bounds, rest) => readClass rounds (done ++ bounds) rest

def readNumber (text : List Char) : Option Nat :=
  if text.isEmpty then none
  else
    text.foldl (fun total c =>
      match total with
      | none => none
      | some n => if '0' ≤ c ∧ c ≤ '9' then some (n * 10 + (c.toNat - '0'.toNat)) else none)
      (some 0)

/-- The counts between braces. -/
def readCounts (text : List Char) : Option (Nat × Option Nat) :=
  let low := text.takeWhile (fun c => c != ',')
  match readNumber low, text.dropWhile (fun c => c != ',') with
  | some n, [] => some (n, some n)
  | some n, [_] => some (n, none)
  | some n, _ :: high => (readNumber high).map (fun m => (n, some m))
  | none, _ => none

/-- How often a test may hold, and the rest of the text. -/
def readRepetition (text : List Char) : Option ((Nat × Option Nat) × List Char) :=
  match text with
  | '*' :: rest => some ((0, none), rest)
  | '+' :: rest => some ((1, none), rest)
  | '?' :: rest => some ((0, some 1), rest)
  | '\x7b' :: rest =>
    (readCounts (rest.takeWhile (fun c => c != '\x7d'))).map (fun counts =>
      (counts, (rest.dropWhile (fun c => c != '\x7d')).drop 1))
  | _ => some ((1, some 1), text)

/-- One test and the rest of the text; parentheses and bars are not supported. -/
def readTest (text : List Char) : Option (CharTest × List Char) :=
  match text with
  | [] => none
  | '.' :: rest => some (.anyOfLine, rest)
  | '\\' :: c :: rest => some (escapedTest c, rest)
  | '[' :: '^' :: rest => (readClass (rest.length + 1) [] rest).map (fun read =>
      (.ranges true read.1, read.2))
  | '[' :: rest => (readClass (rest.length + 1) [] rest).map (fun read =>
      (.ranges false read.1, read.2))
  | c :: rest => if "()|*+?\\^$".toList.contains c then none else some (.char c, rest)

/-- The parts of a pattern and whether it is tied to the end; every round takes a character. -/
def readParts : Nat → List Repeated → List Char → Option (List Repeated × Bool)
  | 0, _, _ => none
  | rounds + 1, done, text =>
    match text with
    | [] => some (done.reverse, false)
    | ['$'] => some (done.reverse, true)
    | _ =>
      match readTest text with
      | none => none
      | some (test, afterTest) =>
        match readRepetition afterTest with
        | none => none
        | some (counts, rest) => readParts rounds (⟨test, counts.1, counts.2⟩ :: done) rest

def read? (text : String) : Option Pattern :=
  let chars := text.toList
  let fromStart := chars.head? == some '^'
  let body := if fromStart then chars.drop 1 else chars
  (readParts (body.length + 1) [] body).map (fun read => ⟨fromStart, read.1, read.2⟩)

end Pattern
end ItemShape
