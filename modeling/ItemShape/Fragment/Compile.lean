import ItemShape.Fragment
import ItemShape.Schema.Validator

/-!
# ItemShape.Fragment.Compile

From the document of a fragment to the fragment, and to a validator.

A fragment is first checked against the shapes of its keywords (`Fragment.fault?`), nested fragments
included. The first fault is the one of the keyword that comes first in `keywordShapes`, wherever it
is written. This compiler knows those keywords only and ignores all others, and it refuses patterns
that `Pattern.read?` does not read.
-/

namespace ItemShape

/-- What must stand under a keyword. -/
inductive KeywordShape where
  | fragment
  | fragmentMap
  | fragmentList
  | typeNames
  | anyNumber
  | positive
  | count
  | text
  | regex
  | list
  | flag
  | names
  deriving DecidableEq

def keywordShapes : List (String × KeywordShape) :=
  [("$comment", .text),
    ("items", .fragment), ("additionalProperties", .fragment), ("properties", .fragmentMap),
    ("allOf", .fragmentList), ("anyOf", .fragmentList), ("oneOf", .fragmentList),
    ("not", .fragment),
    ("type", .typeNames), ("enum", .list), ("multipleOf", .positive), ("maximum", .anyNumber),
    ("exclusiveMaximum", .anyNumber), ("minimum", .anyNumber), ("exclusiveMinimum", .anyNumber),
    ("maxLength", .count), ("minLength", .count), ("pattern", .regex), ("maxItems", .count),
    ("minItems", .count), ("uniqueItems", .flag), ("maxProperties", .count),
    ("minProperties", .count), ("required", .names),
    ("title", .text), ("description", .text), ("deprecated", .flag), ("readOnly", .flag),
    ("writeOnly", .flag), ("examples", .list)]

namespace Fragment

def typeFault (expected : List TypeName) (value : Json) : String :=
  (Violation.wrongType expected).message value

def zero : Number :=
  .int 0 (by decide)

/-- Names of types, each at most once. -/
def isTypeNames (value : Json) : Bool :=
  match value with
  | .string s => (TypeName.ofText? s).isSome
  | .array items =>
    !items.isEmpty && !Json.hasDuplicates items &&
      items.all (fun item =>
        match item with
        | .string s => (TypeName.ofText? s).isSome
        | _ => false)
  | _ => false

def isString : Json → Bool
  | .string _ => true
  | _ => false

/-- Fault of a keyword that holds no fragments. -/
def plainFault? (shape : KeywordShape) (value : Json) : Option String :=
  match shape, value with
  | .typeNames, value =>
    if isTypeNames value then none else some ((Violation.noneOf "anyOf").message value)
  | .anyNumber, .number _ => none
  | .anyNumber, value => some (typeFault [.number] value)
  | .positive, .number n =>
    if n.compare zero = .gt then none
    else some ((Violation.notAboveMinimum zero).message (.number n))
  | .positive, value => some (typeFault [.number] value)
  | .count, .number n =>
    if !n.isWhole then some (typeFault [.integer] (.number n))
    else if n.compare zero = .lt then some ((Violation.belowMinimum zero).message (.number n))
    else none
  | .count, value => some (typeFault [.integer] value)
  | .text, .string _ => none
  | .text, value => some (typeFault [.string] value)
  | .regex, .string s =>
    if (Pattern.read? s).isSome then none else some (Violation.invalidPattern.message (.string s))
  | .regex, value => some (typeFault [.string] value)
  | .list, .array _ => none
  | .list, value => some (typeFault [.array] value)
  | .flag, .bool _ => none
  | .flag, value => some (typeFault [.boolean] value)
  | .names, .array items =>
    match items.find? (fun item => !isString item) with
    | some item => some (typeFault [.string] item)
    | none =>
      if Json.hasDuplicates items then some (Violation.repeatedItems.message (.array items))
      else none
  | .names, value => some (typeFault [.array] value)
  | .fragment, _ | .fragmentMap, _ | .fragmentList, _ => none

/-- The fault of the keyword that comes first in `keywordShapes`. -/
def firstFault? (faults : List (String × Option String)) : Option String :=
  keywordShapes.findSome? (fun keyword => (Entries.get? keyword.1 faults).join)

mutual

/-- What is wrong with a document as a fragment. -/
def fault? : Json → Option String
  | .bool _ => none
  | .object members => firstFault? (memberFaults members)
  | .null => some (typeFault [.boolean, .object] .null)
  | .number n => some (typeFault [.boolean, .object] (.number n))
  | .string s => some (typeFault [.boolean, .object] (.string s))
  | .array items => some (typeFault [.boolean, .object] (.array items))

/-- What is wrong under each keyword. -/
def memberFaults : List (String × Json) → List (String × Option String)
  | [] => []
  | (name, value) :: rest =>
    let fault :=
      match Entries.get? name keywordShapes with
      | none => none
      | some .fragment => fault? value
      | some .fragmentMap =>
        match value with
        | .object fragments => mapFault? fragments
        | other => some (typeFault [.object] other)
      | some .fragmentList =>
        match value with
        | .array fragments =>
          if fragments.isEmpty then some ((Violation.tooFew .item 1).message (.array []))
          else listFault? fragments
        | other => some (typeFault [.array] other)
      | some shape => plainFault? shape value
    (name, fault) :: memberFaults rest

def mapFault? : List (String × Json) → Option String
  | [] => none
  | (_, value) :: rest =>
    match fault? value with
    | some fault => some fault
    | none => mapFault? rest

def listFault? : List Json → Option String
  | [] => none
  | value :: rest =>
    match fault? value with
    | some fault => some fault
    | none => listFault? rest

end

/-! ## Building -/

/-- A count, at most the greatest word of 64 bits. -/
def countOf (n : Number) : Nat :=
  min (n.num.toNat / n.den) 18446744073709551615

def stringsOf (items : List Json) : List String :=
  items.filterMap (fun item =>
    match item with
    | .string s => some s
    | _ => none)

/-- Types in alphabetical order. -/
def typesOf (names : List String) : List TypeName :=
  TypeName.all.filter (fun name => names.contains name.text)

/-- A keyword that holds no fragments. -/
def plainKeyword? (name : String) (value : Json) : Option (Keyword Fragment) :=
  match value with
  | .string s =>
    if name = "type" then some (.type (typesOf [s]))
    else if name = "const" then some (.constant value)
    else if name = "pattern" then (Pattern.read? s).map (fun pattern => .pattern s pattern)
    else none
  | .number n =>
    if name = "const" then some (.constant value)
    else if name = "minimum" then some (.minimum n)
    else if name = "maximum" then some (.maximum n)
    else if name = "exclusiveMinimum" then some (.exclusiveMinimum n)
    else if name = "exclusiveMaximum" then some (.exclusiveMaximum n)
    else if name = "multipleOf" then n.toBinary64?.map (fun divisor => .multipleOf divisor)
    else if name = "minLength" then some (.least .character (countOf n))
    else if name = "maxLength" then some (.most .character (countOf n))
    else if name = "minItems" then some (.least .item (countOf n))
    else if name = "maxItems" then some (.most .item (countOf n))
    else if name = "minProperties" then some (.least .property (countOf n))
    else if name = "maxProperties" then some (.most .property (countOf n))
    else none
  | .array items =>
    if name = "type" then some (.type (typesOf (stringsOf items)))
    else if name = "const" then some (.constant value)
    else if name = "enum" then some (.enumeration items)
    else if name = "required" then some (.required (stringsOf items))
    else none
  | .bool b =>
    if name = "const" then some (.constant value)
    else if name = "uniqueItems" && b then some .uniqueItems
    else none
  | .null | .object _ => if name = "const" then some (.constant value) else none

def declaredFragments? : Keyword Fragment → Option (List (String × Fragment))
  | .properties fragments => some fragments
  | _ => none

def judgesOtherMembers : Keyword Fragment → Bool
  | .noProperties | .allProperties _ _ => true
  | _ => false

/-- Where all members are judged, the declared ones are judged at the same time as the others. -/
def arrange (all : List (Keyword Fragment)) : List (Keyword Fragment) :=
  match all.findSome? declaredFragments? with
  | none => all
  | some declared =>
    if all.any judgesOtherMembers then
      all.filterMap (fun keyword =>
        match keyword with
        | .properties _ => none
        | .noProperties => some (.allProperties declared none)
        | .allProperties _ others => some (.allProperties declared others)
        | other => some other)
    else all

mutual

/-- The fragment of a document without faults. -/
def ofJson : Json → Fragment
  | .bool b => .constant b
  | .object members => .keywords (arrange (keywordsOf members))
  | _ => .constant true

def keywordsOf : List (String × Json) → List (Keyword Fragment)
  | [] => []
  | (name, value) :: rest =>
    let keyword : Option (Keyword Fragment) :=
      if name = "items" then some (.items (ofJson value))
      else if name = "not" then some (.not value (ofJson value))
      else if name = "additionalProperties" then
        match value with
        | .bool true => none
        | .bool false => some .noProperties
        | other => some (.allProperties [] (some (ofJson other)))
      else
        match value with
        | .object members =>
          if name = "properties" then some (.properties (fragmentMap members))
          else plainKeyword? name (.object members)
        | .array items =>
          if name = "allOf" then some (.allOf (fragmentList items))
          else if name = "anyOf" then some (.anyOf (fragmentList items))
          else if name = "oneOf" then some (.oneOf (fragmentList items))
          else plainKeyword? name (.array items)
        | other => plainKeyword? name other
    keyword.toList ++ keywordsOf rest

def fragmentMap : List (String × Json) → List (String × Fragment)
  | [] => []
  | (name, value) :: rest => (name, ofJson value) :: fragmentMap rest

def fragmentList : List Json → List Fragment
  | [] => []
  | value :: rest => ofJson value :: fragmentList rest

end

/-- The fragment of a document, or what is wrong with it. -/
def compile (document : Json) : Except String Fragment :=
  match fault? document with
  | some fault => .error fault
  | none => .ok (ofJson document)

/-- Judges whole documents. -/
def judge (fragment : Fragment) : Judge :=
  fragment.violationAt? ""

def validator (fragment : Fragment) : Validator :=
  fragment.judge.validator

end Fragment
end ItemShape
