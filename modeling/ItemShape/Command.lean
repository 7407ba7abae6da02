import ItemShape.Lint.Report

/-!
# ItemShape.Command

The commands of the command line, and how they are read from words.

A word starting with two dashes is a long option, one starting with a single dash and more is a
cluster of short options, `--` ends the options, and every other word is an operand. The value of
an option is attached (`--mode=put`, `-mput`, `-m=put`) or the next word, which must not look like
an option. An option is given at most once.
-/

namespace ItemShape

structure ParseArguments where
  definition : String
  input : String
  mode : String
  fill : Bool
  transform : Bool
  output : Option String
  pretty : Bool

inductive ReportForm where
  | text
  | json
  deriving DecidableEq

/-- Every name but `json` stands for text. -/
def ReportForm.ofName (name : String) : ReportForm :=
  if name = "json" then .json else .text

inductive Command where
  | version
  | parse (arguments : ParseArguments)
  | format (definition stored : String) (pretty : Bool)
  | lint (path : String) (form : ReportForm) (strict quiet : Bool)

/-- Why words are no command. -/
inductive UsageError where
  | missingCommand
  | unknownCommand (word : String)
  | unknownOption (word : String)
  | missingValue (option : String)
  | unexpectedValue (option : String)
  | repeatedOption (option : String)
  | missingOption (option : String)
  | emptyPath
  | missingOperand
  | unexpectedOperand (word : String)
  deriving DecidableEq

def UsageError.message : UsageError → String
  | missingCommand => "a command is required"
  | unknownCommand word => "unknown command '" ++ word ++ "'"
  | unknownOption word => "unknown option '" ++ word ++ "'"
  | missingValue option => "option --" ++ option ++ " needs a value"
  | unexpectedValue option => "option --" ++ option ++ " takes no value"
  | repeatedOption option => "option --" ++ option ++ " is given more than once"
  | missingOption option => "option --" ++ option ++ " is required"
  | emptyPath => "a path must not be empty"
  | missingOperand => "an operand is missing"
  | unexpectedOperand word => "unexpected operand '" ++ word ++ "'"

namespace Command

/-! ## Words -/

/-- An option that a command takes. -/
structure OptionForm where
  name : String
  short : Option Char
  hasValue : Bool

inductive Word where
  | endOfOptions
  | long (name : String) (value : Option String)
  | short (cluster : List Char)
  | operand

/-- The name and the attached value of a long option. -/
def splitLong (chars : List Char) : String × Option String :=
  match chars.dropWhile (· != '=') with
  | [] => (String.ofList chars, none)
  | _ :: value => (String.ofList (chars.takeWhile (· != '=')), some (String.ofList value))

def classify (word : String) : Word :=
  match word.toList with
  | ['-', '-'] => .endOfOptions
  | '-' :: '-' :: chars => .long (splitLong chars).1 (splitLong chars).2
  | '-' :: c :: chars => .short (c :: chars)
  | _ => .operand

/-- The word can be the value of the option before it. -/
def isValue (word : String) : Bool :=
  match classify word with
  | .operand => true
  | .endOfOptions | .long _ _ | .short _ => false

/-! ## Options and operands -/

/-- Options by name, the empty text for those without a value, and operands in order. -/
structure Given where
  options : List (String × String)
  operands : List String

namespace Given

def empty : Given :=
  ⟨[], []⟩

/-- An option is given. -/
def option (name value : String) (given : Given) : Except UsageError Given :=
  if Entries.contains name given.options then .error (.repeatedOption name)
  else .ok ⟨given.options ++ [(name, value)], given.operands⟩

def operand (word : String) (given : Given) : Given :=
  ⟨given.options, given.operands ++ [word]⟩

def value? (name : String) (given : Given) : Option String :=
  Entries.get? name given.options

def has (name : String) (given : Given) : Bool :=
  Entries.contains name given.options

end Given

/-- A cluster of short options. The first one that takes a value takes the rest of the cluster; if
there is no rest, its name is returned and the value is still to come. -/
def readCluster (forms : List OptionForm) (given : Given) :
    List Char → Except UsageError (Given × Option String)
  | [] => .ok (given, none)
  | c :: rest =>
    match forms.find? (fun form => form.short == some c) with
    | none => .error (.unknownOption (String.ofList ['-', c]))
    | some form =>
      if form.hasValue then
        match rest with
        | [] => .ok (given, some form.name)
        | '=' :: value =>
          match given.option form.name (String.ofList value) with
          | .error e => .error e
          | .ok given => .ok (given, none)
        | value =>
          match given.option form.name (String.ofList value) with
          | .error e => .error e
          | .ok given => .ok (given, none)
      else
        match given.option form.name "" with
        | .error e => .error e
        | .ok given => readCluster forms given rest

/-- A long option. Without its value, its name is returned and the value is still to come. -/
def readLong (forms : List OptionForm) (given : Given) (name : String) (value : Option String) :
    Except UsageError (Given × Option String) :=
  match forms.find? (fun form => form.name == name) with
  | none => .error (.unknownOption ("--" ++ name))
  | some form =>
    match value with
    | none =>
      if form.hasValue then .ok (given, some name)
      else
        match given.option name "" with
        | .error e => .error e
        | .ok given => .ok (given, none)
    | some text =>
      if form.hasValue then
        match given.option name text with
        | .error e => .error e
        | .ok given => .ok (given, none)
      else .error (.unexpectedValue name)

/-- The options and operands among words. `waiting` is the option whose value comes next. -/
def readWords (forms : List OptionForm) (given : Given) (waiting : Option String) :
    List String → Except UsageError Given
  | [] =>
    match waiting with
    | some name => .error (.missingValue name)
    | none => .ok given
  | word :: rest =>
    match waiting with
    | some name =>
      if isValue word then
        match given.option name word with
        | .error e => .error e
        | .ok given => readWords forms given none rest
      else .error (.missingValue name)
    | none =>
      match classify word with
      | .operand => readWords forms (given.operand word) none rest
      | .endOfOptions => .ok ⟨given.options, given.operands ++ rest⟩
      | .long name value =>
        match readLong forms given name value with
        | .error e => .error e
        | .ok (given, waiting) => readWords forms given waiting rest
      | .short cluster =>
        match readCluster forms given cluster with
        | .error e => .error e
        | .ok (given, waiting) => readWords forms given waiting rest

/-! ## Commands -/

def flagForm (name : String) : OptionForm :=
  ⟨name, none, false⟩

def parseForms : List OptionForm :=
  [⟨"mode", some 'm', true⟩, ⟨"output", none, true⟩, flagForm "no-fill", flagForm "no-transform",
    flagForm "pretty"]

def formatForms : List OptionForm :=
  [flagForm "pretty"]

def lintForms : List OptionForm :=
  [⟨"format", none, true⟩, ⟨"quiet", some 'q', false⟩, flagForm "strict"]

def path (text : String) : Except UsageError String :=
  if text.isEmpty then .error .emptyPath else .ok text

def onePath (given : Given) : Except UsageError String :=
  match given.operands with
  | [a] => path a
  | [] => .error .missingOperand
  | _ :: b :: _ => .error (.unexpectedOperand b)

def twoPaths (given : Given) : Except UsageError (String × String) :=
  match given.operands with
  | [a, b] =>
    match path a, path b with
    | .ok a, .ok b => .ok (a, b)
    | .error e, _ => .error e
    | _, .error e => .error e
  | [] | [_] => .error .missingOperand
  | _ :: _ :: c :: _ => .error (.unexpectedOperand c)

def outputPath (given : Given) : Except UsageError (Option String) :=
  match given.value? "output" with
  | none => .ok none
  | some text =>
    match path text with
    | .ok text => .ok (some text)
    | .error e => .error e

def readParse (words : List String) : Except UsageError Command :=
  match readWords parseForms .empty none words with
  | .error e => .error e
  | .ok given =>
    match twoPaths given, outputPath given, given.value? "mode" with
    | .ok (definition, input), .ok output, some mode =>
      .ok (.parse {
        definition := definition
        input := input
        mode := mode
        fill := !given.has "no-fill"
        transform := !given.has "no-transform"
        output := output
        pretty := given.has "pretty" })
    | .error e, _, _ => .error e
    | _, .error e, _ => .error e
    | _, _, none => .error (.missingOption "mode")

def readFormat (words : List String) : Except UsageError Command :=
  match readWords formatForms .empty none words with
  | .error e => .error e
  | .ok given =>
    match twoPaths given with
    | .ok (definition, stored) => .ok (.format definition stored (given.has "pretty"))
    | .error e => .error e

def readLint (words : List String) : Except UsageError Command :=
  match readWords lintForms .empty none words with
  | .error e => .error e
  | .ok given =>
    match onePath given with
    | .ok path =>
      let form := ReportForm.ofName ((given.value? "format").getD "text")
      .ok (.lint path form (given.has "strict") (given.has "quiet"))
    | .error e => .error e

/-- The command that words give. Only the version has an option in the place of its name, which
ends the reading. -/
def read : List String → Except UsageError Command
  | [] => .error .missingCommand
  | word :: rest =>
    match classify word with
    | .operand =>
      if word = "parse" then readParse rest
      else if word = "format" then readFormat rest
      else if word = "lint" then readLint rest
      else .error (.unknownCommand word)
    | .endOfOptions => .error .missingCommand
    | .long "version" none => .ok .version
    | .short ('V' :: _) => .ok .version
    | .long "version" (some _) => .error (.unexpectedValue "version")
    | .long _ _ | .short _ => .error (.unknownOption word)

end Command
end ItemShape
