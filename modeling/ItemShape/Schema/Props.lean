import ItemShape.Mode
import ItemShape.Schema.Context
import ItemShape.Schema.Transformer

/-!
# ItemShape.Schema.Props

The properties every attribute has, whatever its kind. Defaults, links and validators are given per
write mode.
-/

namespace ItemShape

/-- At most one value for each write mode. -/
structure PerMode (α : Type) where
  key : Option α
  put : Option α
  update : Option α

namespace PerMode

variable {α : Type}

def empty : PerMode α :=
  ⟨none, none, none⟩

def get? (values : PerMode α) : Mode → Option α
  | .key => values.key
  | .put => values.put
  | .update => values.update

def set (values : PerMode α) (mode : Mode) (value : α) : PerMode α :=
  match mode with
  | .key => { values with key := some value }
  | .put => { values with put := some value }
  | .update => { values with update := some value }

def isEmpty (values : PerMode α) : Bool :=
  values.key.isNone && values.put.isNone && values.update.isNone

/-- The modes that have a value. -/
def modes (values : PerMode α) : List Mode :=
  Mode.all.filter (fun mode => (values.get? mode).isSome)

end PerMode

/-- A literal default, or a producer of one. -/
inductive Default where
  | value (v : Value)
  | producer (produce : Unit → Value)

def Default.resolve : Default → Value
  | value v => v
  | producer produce => produce ()

/-- Derives a value from what has been filled around the attribute. -/
abbrev Link : Type :=
  LinkContext → Option Value

/-- Verdict of a validator; a rejection may carry a message. -/
inductive Check where
  | valid
  | invalid (message : Option String)
  deriving DecidableEq

/-- The verdict of a yes-or-no test. -/
def Check.ofBool (accepted : Bool) : Check :=
  if accepted then .valid else .invalid none

abbrev Validator : Type :=
  Value → Check

structure Props where
  required : Required
  hidden : Bool
  key : Bool
  savedAs : Option String
  enumerated : Option (List Value)
  defaults : PerMode Default
  links : PerMode Link
  validators : PerMode Validator
  transformer : Option Transformer

/-- The properties of an attribute of which nothing but its kind is said. -/
def Props.plain : Props where
  required := .atLeastOnce
  hidden := false
  key := false
  savedAs := none
  enumerated := none
  defaults := .empty
  links := .empty
  validators := .empty
  transformer := none

end ItemShape
