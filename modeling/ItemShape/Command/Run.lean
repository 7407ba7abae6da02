import ItemShape.Command
import ItemShape.FileSystem
import ItemShape.Format
import ItemShape.Fragment.Compile
import ItemShape.Parse
import ItemShape.Value.Document

/-!
# ItemShape.Command.Run

What commands answer.

`Command.run` reads files through a view and gives a `Response`: a report, or a file to write before
there is one. `Response.settle` is the report after writing, `Response.perform` writes into a file
system. Fragments are compiled as any `FragmentCompiler` says; the one that is used when the command
line runs is given at the end.

Exit codes: 0 for success, 1 for refused values and failed checks, 2 for arguments and contents that
cannot be used, 3 for files that cannot be read or written.
-/

namespace ItemShape

/-- What a command leaves behind: its exit code and the texts it prints. -/
structure Report where
  code : Nat
  output : String
  errors : String
  deriving DecidableEq

namespace Report

def success (output : String) : Report :=
  ⟨0, output, ""⟩

def failure (code : Nat) (message : String) : Report :=
  ⟨code, "", message ++ "\n"⟩

end Report

inductive Response where
  | done (report : Report)
  | write (path content : String)

namespace Response

/-- The report when writing, if it is asked for, ends with this issue or without one. -/
def settle (issue : Option WriteIssue) : Response → Report
  | .done report => report
  | .write path _ =>
    match issue with
    | none => .success ""
    | some issue => .failure 3 ("Error writing to " ++ path ++ ": " ++ issue.message)

/-- The report, and the files with what is written. -/
def perform (system : FileSystem) (response : Response) : Report × FileSystem :=
  match response with
  | .done report => (report, system)
  | .write path content =>
    match system.write path content.toUTF8 with
    | .ok written => (response.settle none, written)
    | .error issue => (response.settle (some issue), system)

end Response

namespace Command

def versionText : String :=
  "item-schema 0.1.0"

/-- The failure to load a file, named for what it should hold. -/
def loadFailure (what : String) (e : LoadError) : Response :=
  .done (.failure e.exitCode ("Error: loading " ++ what ++ ": " ++ e.message))

/-- A document, printed on a line of its own or, without the line end, written to a file. -/
def deliver (document : Json) (pretty : Bool) (output : Option String) : Response :=
  let text := if pretty then document.renderPretty else document.render
  match output with
  | none => .done (.success (text ++ "\n"))
  | some path => .write path text

/-- Written form of a result; no value is written as null. -/
def resultJson : Option Value → Json
  | some value => value.toJson
  | none => .null

def invalidMode (mode : String) : Response :=
  .done (.failure 2 ("Error: invalid mode \"" ++ mode ++ "\": expected " ++
    String.intercalate ", " Mode.names ++ " or create"))

section Answers

variable [FragmentCompiler]

/-- Parses the value in a file, in which operations are recognised. -/
def runParse (view : FileView) (arguments : ParseArguments) : Response :=
  match Mode.parse? arguments.mode with
  | none => invalidMode arguments.mode
  | some mode =>
    match loadDefinition view arguments.definition with
    | .error e => loadFailure "definition" e
    | .ok schema =>
      match loadDocument view arguments.input with
      | .error e => loadFailure "input" e
      | .ok document =>
        let options : ParseOptions :=
          { ParseOptions.ofMode mode with
            fill := arguments.fill
            transform := arguments.transform }
        match schema.parse options (some (.ofOperationJson document)) with
        | .error e => .done (.failure 1 ("Parse failed: " ++ e.message))
        | .ok result => deliver (resultJson result) arguments.pretty arguments.output

/-- Formats the value in a file. -/
def runFormat (view : FileView) (definition stored : String) (pretty : Bool) : Response :=
  match loadDefinition view definition with
  | .error e => loadFailure "definition" e
  | .ok schema =>
    match loadDocument view stored with
    | .error e => loadFailure "stored value" e
    | .ok document =>
      match schema.format (.ofJson document) with
      | .error e => .done (.failure 1 ("Format failed: " ++ e.message))
      | .ok value => deliver value.toJson pretty none

/-- Checks the definition files at or below a path. -/
def runLint (view : FileView) (path : String) (form : ReportForm) (strict quiet : Bool) : Response :=
  match view path with
  | none => .done (.failure 2 ("Error: path not found: " ++ path))
  | some _ =>
    let result := Lint.run view path strict
    let text :=
      match form with
      | .json => result.toJson.renderPretty ++ "\n"
      | .text => result.text quiet
    .done ⟨if result.succeeds then 0 else 1, text, ""⟩

def run (view : FileView) : Command → Response
  | .version => .done (.success (versionText ++ "\n"))
  | .parse arguments => runParse view arguments
  | .format definition stored pretty => runFormat view definition stored pretty
  | .lint path form strict quiet => runLint view path form strict quiet

end Answers

/-- Paths that a command looks at. -/
def paths : Command → List String
  | .version => []
  | .parse arguments => [arguments.definition, arguments.input]
  | .format definition stored _ => [definition, stored]
  | .lint path _ _ _ => [path]

/-- The command looks into the directories under its paths, too. -/
def entersDirectories : Command → Bool
  | .lint _ _ _ _ => true
  | .version | .parse _ | .format _ _ _ => false

/-- The compiler of the command line. -/
instance fragmentCompiler : FragmentCompiler where
  compile fragment :=
    match Fragment.compile fragment with
    | .ok compiled => .ok compiled.judge
    | .error fault => .error fault

end Command
end ItemShape
