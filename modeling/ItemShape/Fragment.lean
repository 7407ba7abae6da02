import ItemShape.Fragment.Pattern
import ItemShape.Fragment.Violation
import ItemShape.Json.Pointer
import ItemShape.Json.Same
import ItemShape.Number.Multiple

/-!
# ItemShape.Fragment

Fragments with the common keywords of JSON Schema, as the command line reads them. Decoding does not
depend on this reading (`FragmentCompiler`), and neither does anything that is proved of it.

Keywords are checked in the order they are written, and each judges only documents of its own
types. `Fragment.violationAt?` finds the first violation and the pointer to the place of it.
-/

namespace ItemShape

inductive Keyword (α : Type) where
  | type (names : List TypeName)
  | minimum (limit : Number)
  | maximum (limit : Number)
  | exclusiveMinimum (limit : Number)
  | exclusiveMaximum (limit : Number)
  | multipleOf (divisor : Binary64)
  | least (unit : Counted) (limit : Nat)
  | most (unit : Counted) (limit : Nat)
  | pattern (text : String) (pattern : Pattern)
  | enumeration (options : List Json)
  | constant (expected : Json)
  | uniqueItems
  | required (names : List String)
  | properties (fragments : List (String × α))
  /-- No member is allowed. -/
  | noProperties
  /-- All members are judged: those declared by their fragments, the others by `others`, or not
  allowed if that is missing. -/
  | allProperties (declared : List (String × α)) (others : Option α)
  | items (fragment : α)
  | allOf (fragments : List α)
  | anyOf (fragments : List α)
  | oneOf (fragments : List α)
  | not (text : Json) (fragment : α)

inductive Fragment where
  | constant (accepts : Bool)
  | keywords (all : List (Keyword Fragment))

/-! ## Constants -/

/-- A constant expects a number within rounding distance, and any other document itself. -/
def Json.isConstant (expected value : Json) : Bool :=
  match expected, value with
  | .number a, .number b => a.isClose b
  | a, b => a.sameValue b

/-! ## Keywords without fragments -/

/-- A violation at the place of the document itself, unless the condition holds. -/
def violationUnless (holds : Bool) (pointer : String) (value : Json) (violation : Violation) :
    Option (String × String) :=
  if holds then none else some (pointer, violation.message value)

/-- Length of a string, list or map in the unit it is counted in. -/
def Json.count? (unit : Counted) (value : Json) : Option Nat :=
  match unit, value with
  | .character, .string s => some s.length
  | .item, .array items => some items.length
  | .property, .object members => some members.length
  | _, _ => none

/-- A condition on numbers. -/
def judgeNumber (pointer : String) (value : Json) (violation : Violation)
    (holds : Number → Bool) : Option (String × String) :=
  match value with
  | .number n => violationUnless (holds n) pointer value violation
  | _ => none

/-- A condition on a count. -/
def judgeCount (unit : Counted) (pointer : String) (value : Json) (violation : Violation)
    (holds : Nat → Bool) : Option (String × String) :=
  match value.count? unit with
  | some count => violationUnless (holds count) pointer value violation
  | none => none

/-- The first required name that an object lacks. -/
def missingName? (names : List String) (value : Json) : Option String :=
  match value with
  | .object members => names.find? (fun name => !Entries.contains name members)
  | _ => none

/-- Judges the items of a list, the first one at `position`. -/
def judgeItems (judge : String → Json → Option (String × String)) (pointer : String)
    (position : Nat) : List Json → Option (String × String)
  | [] => none
  | item :: rest =>
    match judge (Pointer.child pointer (toString position)) item with
    | some violation => some violation
    | none => judgeItems judge pointer (position + 1) rest

/-- Judges the members of an object in their order, declared ones as `declared` says. -/
def membersViolation? (declared : List (String × (String → Json → Option (String × String))))
    (others : Option (String → Json → Option (String × String))) (pointer : String) :
    List (String × Json) → Option (String × String)
  | [] => none
  | (name, value) :: rest =>
    let judge :=
      match Entries.get? name declared with
      | some judge => some judge
      | none => others
    let found :=
      match judge with
      | some judge => judge (Pointer.child pointer name) value
      | none => none
    match found with
    | some violation => some violation
    | none => membersViolation? declared others pointer rest

namespace Fragment

mutual

/-- Pointer and text of the first violation by a document at `pointer`. -/
def violationAt? : Fragment → String → Json → Option (String × String)
  | .constant accepts, pointer, value => violationUnless accepts pointer value .refused
  | .keywords all, pointer, value => keywordsViolation? all pointer value

def keywordsViolation? : List (Keyword Fragment) → String → Json → Option (String × String)
  | [], _, _ => none
  | keyword :: rest, pointer, value =>
    match keywordViolation? keyword pointer value with
    | some violation => some violation
    | none => keywordsViolation? rest pointer value

def keywordViolation? : Keyword Fragment → String → Json → Option (String × String)
  | .type names, pointer, value =>
    violationUnless (names.any (fun name => name.covers value)) pointer value (.wrongType names)
  | .minimum limit, pointer, value =>
    judgeNumber pointer value (.belowMinimum limit) (fun n => n.compare limit != .lt)
  | .maximum limit, pointer, value =>
    judgeNumber pointer value (.aboveMaximum limit) (fun n => n.compare limit != .gt)
  | .exclusiveMinimum limit, pointer, value =>
    judgeNumber pointer value (.notAboveMinimum limit) (fun n => n.compare limit == .gt)
  | .exclusiveMaximum limit, pointer, value =>
    judgeNumber pointer value (.notBelowMaximum limit) (fun n => n.compare limit == .lt)
  | .multipleOf divisor, pointer, value =>
    judgeNumber pointer value (.notMultiple divisor) (fun n => n.isMultipleOf divisor)
  | .least unit limit, pointer, value =>
    judgeCount unit pointer value (.tooFew unit limit) (fun count => decide (limit ≤ count))
  | .most unit limit, pointer, value =>
    judgeCount unit pointer value (.tooMany unit limit) (fun count => decide (count ≤ limit))
  | .pattern text pattern, pointer, value =>
    match value with
    | .string s => violationUnless (pattern.matchesText s) pointer value (.noMatch text)
    | _ => none
  | .enumeration options, pointer, value =>
    violationUnless (options.any (fun option => option.sameValue value)) pointer value
      (.notEnumerated options)
  | .constant expected, pointer, value =>
    violationUnless (expected.isConstant value) pointer value (.notConstant expected)
  | .uniqueItems, pointer, value =>
    match value with
    | .array items => violationUnless (!Json.hasDuplicates items) pointer value .repeatedItems
    | _ => none
  | .required names, pointer, value =>
    match missingName? names value with
    | some name => some (pointer, (Violation.missingProperty name).message value)
    | none => none
  | .properties fragments, pointer, value =>
    match value with
    | .object members => propertiesViolation? fragments pointer members
    | _ => none
  | .noProperties, pointer, value =>
    match value with
    | .object ((_, first) :: _) => some (pointer, Violation.refused.message first)
    | _ => none
  | .allProperties declared none, pointer, value =>
    match value with
    | .object members =>
      match membersViolation? (declaredJudges declared) none pointer members with
      | some violation => some violation
      | none =>
        let unexpected := (Entries.names members).filter (fun name =>
          !Entries.contains name declared)
        violationUnless unexpected.isEmpty pointer value (.unexpectedProperties unexpected)
    | _ => none
  | .allProperties declared (some others), pointer, value =>
    match value with
    | .object members =>
      membersViolation? (declaredJudges declared)
        (some (fun place member => violationAt? others place member)) pointer members
    | _ => none
  | .items fragment, pointer, value =>
    match value with
    | .array items =>
      judgeItems (fun place item => violationAt? fragment place item) pointer 0 items
    | _ => none
  | .allOf fragments, pointer, value => firstViolation? fragments pointer value
  | .anyOf fragments, pointer, value =>
    violationUnless (decide (0 < acceptedBy fragments value)) pointer value (.noneOf "anyOf")
  | .oneOf fragments, pointer, value =>
    match acceptedBy fragments value with
    | 0 => some (pointer, (Violation.noneOf "oneOf").message value)
    | 1 => none
    | _ => some (pointer, Violation.severalOf.message value)
  | .not text fragment, pointer, value =>
    violationUnless (violationAt? fragment "" value).isSome pointer value (.forbidden text)

/-- Judges the members that some fragments are given for, in the order of the fragments. -/
def propertiesViolation? : List (String × Fragment) → String → List (String × Json) →
    Option (String × String)
  | [], _, _ => none
  | (name, fragment) :: rest, pointer, members =>
    match Entries.get? name members with
    | none => propertiesViolation? rest pointer members
    | some value =>
      match violationAt? fragment (Pointer.child pointer name) value with
      | some violation => some violation
      | none => propertiesViolation? rest pointer members

/-- How declared members are judged. -/
def declaredJudges : List (String × Fragment) →
    List (String × (String → Json → Option (String × String)))
  | [] => []
  | (name, fragment) :: rest =>
    (name, fun place value => violationAt? fragment place value) :: declaredJudges rest

/-- The first violation that several fragments find. -/
def firstViolation? : List Fragment → String → Json → Option (String × String)
  | [], _, _ => none
  | fragment :: rest, pointer, value =>
    match violationAt? fragment pointer value with
    | some violation => some violation
    | none => firstViolation? rest pointer value

/-- How many fragments accept a document. -/
def acceptedBy : List Fragment → Json → Nat
  | [], _ => 0
  | fragment :: rest, value =>
    (if (violationAt? fragment "" value).isNone then 1 else 0) + acceptedBy rest value

end

end Fragment
end ItemShape
