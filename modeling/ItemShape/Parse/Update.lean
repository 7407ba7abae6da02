import ItemShape.Parse.Start

/-!
# ItemShape.Parse.Update

The extension of update mode, which recognises operations:

* `ADD` and `DELETE` on a set, with one member or a list of members;
* `ADD` on a number;
* `SET` on a map, record or list;
* `REMOVE` on anything, an error where the attribute is required in update mode;
* `GET` on anything, with a fallback that the attribute itself would accept.

Operands are parsed without filling and without operations inside, one segment below the node. Any
other operation is handed back, and generic handling rejects it.
-/

namespace ItemShape
namespace Update

/-- The operand of an operation: one parser, or one for each member of a list. -/
inductive Operand where
  | one (parser : Parser)
  | many (parsers : List Parser)

/-- The next step of a parser, absence if there is none. -/
def step (parser : Parser) : Outcome :=
  parser.next.1.getD (.ok none)

/-- The present values of the next steps, or the first error among them. -/
def stepAll : List Parser → Except SchemaError (List Value)
  | [] => .ok []
  | parser :: rest =>
    match step parser with
    | .error e => .error e
    | .ok value =>
      match stepAll rest with
      | .error e => .error e
      | .ok values => .ok (value.toList ++ values)

namespace Operand

/-- The next step of the operand. -/
def step : Operand → Outcome
  | one parser => Update.step parser
  | many parsers =>
    match stepAll parsers with
    | .error e => .error e
    | .ok values => .ok (some (.list values))

/-- The operand after its next step. -/
def rest : Operand → Operand
  | one parser => one parser.next.2
  | many parsers => many (parsers.map (fun parser => parser.next.2))

end Operand

/-- What a recognised operation does. -/
inductive Action where
  | wrap (build : Value → Operation Value) (operand : Operand)
  | remove (required : Bool)
  | get (source : String) (fallback : Option Parser)

namespace Action

/-- The operation around the next step of its operand. -/
def step (path : ValuePath) : Action → Outcome
  | wrap build operand =>
    match operand.step with
    | .error e => .error e
    | .ok value => .ok (some (.op (build (value.getD .null))))
  | remove required =>
    if required then .error (.missing path) else .ok (some (.op .remove))
  | get source fallback =>
    if source.isEmpty then
      .error (.mismatch (path.operation .get) "attribute reference" "empty string")
    else
      match fallback with
      | none => .ok (some (.op (.get source none)))
      | some parser =>
        match Update.step parser with
        | .error e => .error e
        | .ok value => .ok (some (.op (.get source value)))

/-- The action after the next step of its operand. -/
def rest : Action → Action
  | wrap build operand => wrap build operand.rest
  | remove required => remove required
  | get source fallback => get source (fallback.map (fun parser => parser.next.2))

end Action

/-- Settings of an operand. -/
def operandSettings (settings : Settings) (tag : OpTag) : Settings :=
  { settings with fill := false, path := settings.path.operation tag }

/-- Parser of one operand against `schema`. -/
def startOperand (schema : Schema) (settings : Settings) (tag : OpTag) (operand : Value) :
    Parser :=
  start schema none (operandSettings settings tag) (some operand)

/-- A list is parsed member by member, any other operand as one member. -/
def setOperand (elements : Schema) (settings : Settings) (tag : OpTag) (operand : Value) :
    Operand :=
  match operand with
  | .list members => .many (members.map (startOperand elements settings tag))
  | member => .one (startOperand elements settings tag member)

/-- The action of an operation on a node of this schema, if the node accepts the operation. -/
def action? (schema : Schema) (settings : Settings) (operation : Operation Value) :
    Option Action :=
  match operation, schema.kind with
  | .add operand, .set elements =>
    some (.wrap .add (setOperand elements settings .add operand))
  | .delete operand, .set elements =>
    some (.wrap .delete (setOperand elements settings .delete operand))
  | .add operand, .scalar .number =>
    some (.wrap .add (.one (startOperand schema settings .add operand)))
  | .set payload, .map _ => some (.wrap .set (.one (startOperand schema settings .set payload)))
  | .set payload, .record _ _ =>
    some (.wrap .set (.one (startOperand schema settings .set payload)))
  | .set payload, .list _ => some (.wrap .set (.one (startOperand schema settings .set payload)))
  | .remove, _ => some (.remove (schema.isRequired .update))
  | .get source fallback, _ =>
    some (.get source (fallback.map (startOperand schema settings .get)))
  | _, _ => none

def consult (schema : Schema) (settings : Settings) (input : Option Value) : Consultation :=
  match input with
  | some (.op operation) =>
    match action? schema settings operation with
    | some action =>
      .extended
        (.new settings.transform (action.step settings.path) (action.rest.step settings.path))
    | none => .unextended input
  | _ => .unextended input

def extension : Extension where
  name := "UpdateExtension"
  parse := consult

end Update
end ItemShape
