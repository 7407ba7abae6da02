import ItemShape.Json.Text
import ItemShape.Lint

/-!
# ItemShape.Lint.Report

Reports of checked files: as a document (`Result.toJson`) and as coloured lines for a terminal
(`Result.text`).
-/

namespace ItemShape
namespace Lint

/-! ## Documents -/

/-- A number of files or findings; these stay in the range of whole numbers. -/
def countJson (n : Nat) : Json :=
  match Number.ofInt? n with
  | some number => .number number
  | none => .null

def findingJson (path : String) (finding : Finding) : Json :=
  .object [
    ("severity", .string finding.severity.name),
    ("code", .string finding.code),
    ("file", .string path),
    ("path", .string finding.pointer),
    ("message", .string finding.message)]

/-- The findings are left out when there are none. -/
def FileResult.toJson (result : FileResult) : Json :=
  let head := [("file", .string result.shown), ("status", .string result.status.name)]
  if result.findings.isEmpty then .object head
  else .object (head ++ [("diagnostics", .array (result.findings.map (findingJson result.path)))])

def Result.toJson (result : Result) : Json :=
  .object [
    ("path", .string result.path),
    ("files_checked", countJson result.filesChecked),
    ("passed", countJson result.passed),
    ("failed", countJson result.failed),
    ("errors", countJson result.errors),
    ("warnings", countJson result.warnings),
    ("results", .array (result.files.map FileResult.toJson))]

/-! ## Lines -/

inductive Colour where
  | red
  | green
  | yellow

/-- Starts a colour on the terminal. -/
def Colour.start : Colour → String
  | red => "\x1b[31m"
  | green => "\x1b[32m"
  | yellow => "\x1b[33m"

def Colour.paint (colour : Colour) (text : String) : String :=
  colour.start ++ text ++ "\x1b[0m"

def Status.icon : Status → String
  | ok => Colour.green.paint "✓"
  | warning => Colour.yellow.paint "⚠"
  | error => Colour.red.paint "✗"

def severityColour : Severity → Colour
  | .error => .red
  | .warning => .yellow

def findingLine (finding : Finding) : String :=
  let label := finding.severity.name ++ "[" ++ finding.code ++ "]"
  "    " ++ (severityColour finding.severity).paint label ++ ": " ++ finding.pointer ++ " - " ++
    finding.message ++ "\n"

/-- A quiet report shows no faultless files and no warnings. -/
def FileResult.text (quiet : Bool) (result : FileResult) : String :=
  let head :=
    if quiet && result.status == .ok then ""
    else "  " ++ result.status.icon ++ " " ++ result.shown ++ "\n"
  let shown := result.findings.filter (fun finding => !quiet || finding.isError)
  head ++ String.join (shown.map findingLine)

def Result.summary (result : Result) : String :=
  let files := toString result.filesChecked ++ " files checked"
  if result.succeeds then Colour.green.paint ("✓ " ++ files ++ ", all passed")
  else
    Colour.red.paint ("✗ " ++ files ++ ": " ++ toString result.passed ++ " passed, " ++
      toString result.failed ++ " failed (" ++ toString result.errors ++ " errors, " ++
      toString result.warnings ++ " warnings)")

def Result.text (quiet : Bool) (result : Result) : String :=
  let head := if quiet then "" else "Linting " ++ result.path ++ " ...\n\n"
  head ++ String.join (result.files.map (FileResult.text quiet)) ++ "\n" ++ result.summary ++ "\n"

end Lint
end ItemShape
