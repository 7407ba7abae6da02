import ItemShape.Parse.Fill

/-!
# ItemShape.Parse.Start

Parsing a value against a schema, with whatever extension.
-/

namespace ItemShape

/-- The parser of `input`, which is `none` where the value is absent. -/
def start (schema : Schema) (extension : Option Extension) (settings : Settings)
    (input : Option Value) : Parser :=
  match fillNode schema extension settings none input with
  | .error e => .new settings.transform (.error e) (.error e)
  | .ok filled => .new settings.transform (.ok filled.value?) (filled.store settings.path)

end ItemShape
