import ItemShape.Parse
import ItemShape.Schema.Describe

/-!
# ItemShape.Parse.Describe

One-line descriptions of parsers, for logs and diagnostics.
-/

namespace ItemShape

/-- The phase a parser is in, and whether it was asked for the second one. -/
def Parser.describe (parser : Parser) : String :=
  Describe.record "Parser"
    [("phase", Quoted.encode parser.phase.name), ("transform", Describe.bool parser.transform)]

def Consultation.describe : Consultation → String
  | unextended input => "Unextended(" ++ Describe.optional (input.map Value.describe) ++ ")"
  | extended parser => "Extended(" ++ parser.describe ++ ")"

end ItemShape
