import ItemShape.Parse.Update

/-!
# ItemShape.Parse

Parsing with options: `Schema.start` for one step at a time, `Schema.parse` for the result of all
requested steps.
-/

namespace ItemShape

/-- The extension of a mode, unless another one is chosen. -/
def Mode.extension? : Mode → Option Extension
  | .update => some Update.extension
  | .key | .put => none

structure ParseOptions extends Settings where
  extension : Option Extension

/-- Filling and transforming at the root, with the extension of the mode. -/
def ParseOptions.ofMode (mode : Mode) : ParseOptions where
  mode := mode
  fill := true
  transform := true
  path := .root
  extension := mode.extension?

namespace Schema

def start (schema : Schema) (options : ParseOptions) (input : Option Value) : Parser :=
  ItemShape.start schema options.extension options.toSettings input

/-- The last value of the requested steps, or the first error. -/
def parse (schema : Schema) (options : ParseOptions) (input : Option Value) : Outcome :=
  (schema.start options input).run

end Schema
end ItemShape
