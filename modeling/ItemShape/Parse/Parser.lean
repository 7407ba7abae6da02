import ItemShape.Error
import ItemShape.Value

/-!
# ItemShape.Parse.Parser

Parsing proceeds in two steps that the caller asks for one at a time: the first yields the filled
value, the second, if it was requested, the value to store.

A parser is exhausted after its last step and after an error (`Parser.next`).
-/

namespace ItemShape

/-- Result of a step: a value, its absence, or an error. -/
abbrev Outcome : Type :=
  Except SchemaError (Option Value)

inductive Phase where
  | fill
  | transform
  | exhausted
  deriving DecidableEq

def Phase.name : Phase → String
  | fill => "fill"
  | transform => "transform"
  | exhausted => "exhausted"

/-- What the two steps yield, and which comes next. -/
structure Parser where
  phase : Phase
  transform : Bool
  filled : Outcome
  stored : Outcome

namespace Parser

/-- A parser that has not been asked yet. -/
def new (transform : Bool) (filled stored : Outcome) : Parser :=
  ⟨.fill, transform, filled, stored⟩

def isExhausted (parser : Parser) : Bool :=
  parser.phase == .exhausted

/-- The next step, if there is one, and the parser after it. -/
def next (parser : Parser) : Option Outcome × Parser :=
  match parser.phase with
  | .fill =>
    match parser.filled with
    | .error e => (some (.error e), { parser with phase := .exhausted })
    | .ok value =>
      (some (.ok value),
        { parser with phase := if parser.transform then .transform else .exhausted })
  | .transform => (some parser.stored, { parser with phase := .exhausted })
  | .exhausted => (none, parser)

/-- Bound on the number of steps to come. -/
def remaining (parser : Parser) : Nat :=
  match parser.phase with
  | .fill => 2
  | .transform => 1
  | .exhausted => 0

/-- At most `count` further steps, each with whether the parser is exhausted after it. -/
def take : Nat → Parser → List (Outcome × Bool)
  | 0, _ => []
  | count + 1, parser =>
    match parser.next with
    | (none, _) => []
    | (some outcome, rest) => (outcome, rest.isExhausted) :: take count rest

/-- All further steps. -/
def trace (parser : Parser) : List (Outcome × Bool) :=
  take parser.remaining parser

/-- The last of some outcomes, or the first error among them. -/
def lastOutcome (latest : Option Value) : List Outcome → Outcome
  | [] => .ok latest
  | .error e :: _ => .error e
  | .ok value :: rest => lastOutcome value rest

/-- Runs every step and yields the last value. -/
def run (parser : Parser) : Outcome :=
  lastOutcome none (parser.trace.map Prod.fst)

end Parser
end ItemShape
