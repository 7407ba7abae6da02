import ItemShape.Json.Syntax
import ItemShape.Mode
import ItemShape.Path

/-!
# ItemShape.Error

What can go wrong: when a schema is composed, when a value is parsed or formatted, and when a
document or definition is loaded. Each error is a cause; `message` gives its text.
-/

namespace ItemShape

/-- Why a schema cannot be composed. -/
inductive ConstructionError where
  | optionalElement (container : KindName)
  | hiddenElement (container : KindName)
  | renamedElement (container : KindName) (savedAs : String)
  | defaultedElement (container : KindName)
  | nonScalarSetElement (kind : KindName)
  | nonStringRecordKey (kind : KindName)
  | nestedItem (container : KindName)
  | emptyAnyOf
  deriving DecidableEq

def ConstructionError.message : ConstructionError → String
  | optionalElement container => container.text ++ " elements must be required"
  | hiddenElement container => container.text ++ " elements cannot be hidden"
  | renamedElement container savedAs =>
    container.text ++ " elements cannot be renamed (savedAs \"" ++ savedAs ++ "\")"
  | defaultedElement container => container.text ++ " elements cannot have a default or a link"
  | nonScalarSetElement kind => "set elements must be scalars, got " ++ kind.text
  | nonStringRecordKey kind => "record keys must be strings, got " ++ kind.text
  | nestedItem container => "an item schema cannot be nested inside " ++ container.text
  | emptyAnyOf => "anyOf needs at least one member"

/-- Why a value is refused. -/
inductive ErrorReason where
  | requiredAttributeMissing
  | typeMismatch (expected actual : String)
  | validationFailed (message : String)
  | renameConflict (stored : String)
  deriving DecidableEq

def ErrorReason.message : ErrorReason → String
  | requiredAttributeMissing => "required attribute is missing"
  | typeMismatch expected actual => "expected " ++ expected ++ ", got " ++ actual
  | validationFailed message => "validation failed: " ++ message
  | renameConflict stored => "more than one attribute is stored as \"" ++ stored ++ "\""

/-- A refused value and its location. -/
structure SchemaError where
  path : ValuePath
  reason : ErrorReason

namespace SchemaError

def message (e : SchemaError) : String :=
  e.path.display ++ ": " ++ e.reason.message

def missing (path : ValuePath) : SchemaError :=
  ⟨path, .requiredAttributeMissing⟩

def mismatch (path : ValuePath) (expected actual : String) : SchemaError :=
  ⟨path, .typeMismatch expected actual⟩

def invalid (path : ValuePath) (message : String) : SchemaError :=
  ⟨path, .validationFailed message⟩

def conflict (path : ValuePath) (stored : String) : SchemaError :=
  ⟨path, .renameConflict stored⟩

end SchemaError

/-- Why an existing file cannot be read. -/
inductive ReadIssue where
  | isDirectory
  | notText
  | system (description : String)
  deriving DecidableEq

def ReadIssue.message : ReadIssue → String
  | isDirectory => "Is a directory (os error 21)"
  | notText => "stream did not contain valid UTF-8"
  | system description => description

/-- Why a document or a definition cannot be loaded. -/
inductive LoadError where
  | fileNotFound (file : String)
  | readError (file : String) (issue : ReadIssue)
  | invalidJson (error : Json.SyntaxError)
  | invalidDefinition (pointer message : String)
  | construction (pointer : String) (error : ConstructionError)
  deriving DecidableEq

namespace LoadError

def message : LoadError → String
  | fileNotFound file => "file not found: " ++ file
  | readError file issue => "cannot read " ++ file ++ ": " ++ issue.message
  | invalidJson error => "invalid JSON: " ++ error.message
  | invalidDefinition pointer message => "invalid definition at " ++ pointer ++ ": " ++ message
  | construction pointer error => "invalid schema at " ++ pointer ++ ": " ++ error.message

/-- Exit code of a command that fails with this error: three for files, two for their contents. -/
def exitCode : LoadError → Nat
  | fileNotFound _ | readError _ _ => 3
  | invalidJson _ | invalidDefinition _ _ | construction _ _ => 2

end LoadError
end ItemShape
