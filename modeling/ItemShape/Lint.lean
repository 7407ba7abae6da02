import ItemShape.FilePath
import ItemShape.Load

/-!
# ItemShape.Lint

Checks of definition files.

* `Finding`: what can be wrong with a file. Errors are a file that holds no document and a
  definition that cannot be decoded; warnings are keywords and modes that decoding ignores.
* `Lint.file` checks one file, `Lint.run` a file or all definition files below a directory.
* `Lint.Result` counts: a file fails with an error, and in a strict run with any finding.
-/

namespace ItemShape

inductive Severity where
  | error
  | warning
  deriving DecidableEq

namespace Severity

def name : Severity → String
  | error => "error"
  | warning => "warning"

end Severity

inductive Finding where
  | noDocument (error : LoadError)
  | badDefinition (error : LoadError)
  | unknownKeyword (pointer keyword : String)
  | unknownMode (pointer mode : String)
  deriving DecidableEq

namespace Finding

def severity : Finding → Severity
  | noDocument _ | badDefinition _ => .error
  | unknownKeyword _ _ | unknownMode _ _ => .warning

def code : Finding → String
  | noDocument _ => "E001"
  | badDefinition _ => "E002"
  | unknownKeyword _ _ => "W001"
  | unknownMode _ _ => "W002"

/-- Pointer to what the finding is about. -/
def pointer : Finding → String
  | noDocument _ => Pointer.display ""
  | badDefinition (.invalidDefinition pointer _) => pointer
  | badDefinition (.construction pointer _) => pointer
  | badDefinition _ => Pointer.display ""
  | unknownKeyword pointer _ => pointer
  | unknownMode pointer _ => pointer

def message : Finding → String
  | noDocument error => "syntax error: " ++ error.message
  | badDefinition error => error.message
  | unknownKeyword _ keyword => "unknown keyword \"" ++ keyword ++ "\" is ignored"
  | unknownMode _ mode =>
    "unknown mode \"" ++ mode ++ "\": expected " ++ String.intercalate ", " Mode.names

def isError (finding : Finding) : Bool :=
  finding.severity == .error

def isWarning (finding : Finding) : Bool :=
  finding.severity == .warning

end Finding

/-! ## Keywords -/

namespace Lint

/-- The names of a definition that are no keywords. -/
def unknownKeywords (pointer : String) : List (String × Json) → List Finding
  | [] => []
  | (name, _) :: rest =>
    if Definition.keywords.contains name then unknownKeywords pointer rest
    else .unknownKeyword (Pointer.child pointer name) name :: unknownKeywords pointer rest

/-- The names in a validator object that are no modes. -/
def unknownModes (pointer : String) : List (String × Json) → List Finding
  | [] => []
  | (name, _) :: rest =>
    if Mode.names.contains name then unknownModes pointer rest
    else .unknownMode (Pointer.child pointer name) name :: unknownModes pointer rest

/-- Unknown modes of the validators of a definition. -/
def validatorFindings (pointer : String) (members : List (String × Json)) : List Finding :=
  match Entries.get? "validate" members with
  | some (.object validators) => unknownModes (Pointer.child pointer "validate") validators
  | _ => []

/-- Keywords that hold definitions, in the order in which their findings are listed. -/
def childKeywords : List String :=
  ["elements", "keys", "attributes", "members"]

/-- The findings of a definition: its own, then those of its children. -/
def ofParts (pointer : String) (members : List (String × Json))
    (parts : List (String × List Finding)) : List Finding :=
  unknownKeywords pointer members ++ validatorFindings pointer members ++
    childKeywords.flatMap (fun keyword => (Entries.get? keyword parts).getD [])

mutual

/-- Ignored names in the definition at `pointer` and in the definitions inside it. -/
def keywordFindings (pointer : String) : Json → List Finding
  | .object members => ofParts pointer members (partFindings pointer members)
  | .null | .bool _ | .number _ | .string _ | .array _ => []

/-- For every member of a definition, the findings of the definitions that it holds. -/
def partFindings (pointer : String) : List (String × Json) → List (String × List Finding)
  | [] => []
  | (name, value) :: rest =>
    let findings :=
      if name = "elements" ∨ name = "keys" then
        keywordFindings (Pointer.child pointer name) value
      else
        match value with
        | .object definitions =>
          if name = "attributes" then namedFindings (Pointer.child pointer name) definitions
          else []
        | .array definitions =>
          if name = "members" then listedFindings (Pointer.child pointer name) 0 definitions
          else []
        | _ => []
    (name, findings) :: partFindings pointer rest

def namedFindings (pointer : String) : List (String × Json) → List Finding
  | [] => []
  | (name, definition) :: rest =>
    keywordFindings (Pointer.child pointer name) definition ++ namedFindings pointer rest

def listedFindings (pointer : String) (position : Nat) : List Json → List Finding
  | [] => []
  | definition :: rest =>
    keywordFindings (Pointer.child pointer (toString position)) definition ++
      listedFindings pointer (position + 1) rest

end

/-! ## Files -/

section Files

variable [FragmentCompiler]

/-- The findings of a document that should be a definition. -/
def documentFindings (document : Json) : List Finding :=
  match Definition.decode document with
  | .ok _ => keywordFindings "" document
  | .error e => .badDefinition e :: keywordFindings "" document

/-- The findings of the file under a path. -/
def findings (view : FileView) (path : String) : List Finding :=
  match loadDocument view path with
  | .ok document => documentFindings document
  | .error e => [.noDocument e]

end Files

inductive Status where
  | ok
  | warning
  | error
  deriving DecidableEq

def Status.name : Status → String
  | ok => "ok"
  | warning => "warning"
  | error => "error"

/-- A checked file: its path, the path to show it under, and what was found. -/
structure FileResult where
  path : String
  shown : String
  findings : List Finding

namespace FileResult

def status (result : FileResult) : Status :=
  if result.findings.any Finding.isError then .error
  else if result.findings.any Finding.isWarning then .warning
  else .ok

/-- In a strict run a file with warnings fails too. -/
def fails (strict : Bool) (result : FileResult) : Bool :=
  if strict then result.status != .ok else result.status == .error

end FileResult

/-- Checks one file; it is shown relative to `base` where it lies below it. -/
def file [FragmentCompiler] (view : FileView) (base path : String) : FileResult where
  path := path
  shown := (FilePath.relative? base path).getD path
  findings := findings view path

mutual

/-- Paths of the definition files at or below `path`. -/
def pathsBelow (path : String) : FileTree → List String
  | .file _ | .unreadable _ => if FilePath.hasExtension "json" path then [path] else []
  | .directory entries => entryPaths path entries

def entryPaths (path : String) : List (String × FileTree) → List String
  | [] => []
  | (name, node) :: rest => pathsBelow (FilePath.child path name) node ++ entryPaths path rest

end

/-- Paths of the definition files at or below `path`, in the order of their names. -/
def definitionFiles (view : FileView) (path : String) : List String :=
  match view path with
  | none => []
  | some tree =>
    (pathsBelow path tree).mergeSort
      (fun a b => FilePath.namesLe (FilePath.names a) (FilePath.names b))

/-! ## Runs -/

structure Result where
  path : String
  strict : Bool
  files : List FileResult

namespace Result

def filesChecked (result : Result) : Nat :=
  result.files.length

def failed (result : Result) : Nat :=
  result.files.countP (FileResult.fails result.strict)

def passed (result : Result) : Nat :=
  result.filesChecked - result.failed

/-- All findings, file by file. -/
def findings (result : Result) : List Finding :=
  result.files.flatMap FileResult.findings

def errors (result : Result) : Nat :=
  result.findings.countP Finding.isError

def warnings (result : Result) : Nat :=
  result.findings.countP Finding.isWarning

/-- There are no errors. -/
def isOk (result : Result) : Bool :=
  result.errors == 0

/-- There are no errors, and no warnings either in a strict run. -/
def succeeds (result : Result) : Bool :=
  result.isOk && (!result.strict || result.warnings == 0)

end Result

variable [FragmentCompiler]

/-- Checks some files, shown relative to `path`. -/
def ofFiles (view : FileView) (path : String) (strict : Bool) (files : List String) : Result where
  path := path
  strict := strict
  files := files.map (file view path)

/-- Checks the definition files at or below `path`. -/
def run (view : FileView) (path : String) (strict : Bool) : Result :=
  ofFiles view path strict (definitionFiles view path)

end Lint
end ItemShape
