import ItemShape.Parse.Parser
import ItemShape.Schema

/-!
# ItemShape.Parse.Extension

Settings of a parse, and extensions, which take over the parsing of inputs they recognise.

An extension is consulted at every node before any generic handling. It hands the input back, or it
answers with a parser that owns the whole subtree.
-/

namespace ItemShape

/-- * `fill`: resolve links and defaults for absent values;
* `transform`: the value to store is wanted as well;
* `path`: location of the parsed value. -/
structure Settings where
  mode : Mode
  fill : Bool
  transform : Bool
  path : ValuePath

/-- The same settings at another place. -/
def Settings.at (settings : Settings) (path : ValuePath) : Settings :=
  { settings with path := path }

inductive Consultation where
  | unextended (input : Option Value)
  | extended (parser : Parser)

structure Extension where
  name : String
  parse : Schema → Settings → Option Value → Consultation

/-- Without an extension every input is handed back. -/
def Extension.consult (extension : Option Extension) (schema : Schema) (settings : Settings)
    (input : Option Value) : Consultation :=
  match extension with
  | none => .unextended input
  | some extension => extension.parse schema settings input

end ItemShape
