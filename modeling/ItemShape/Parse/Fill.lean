import ItemShape.Parse.Extension
import ItemShape.Parse.Filled
import ItemShape.Value.Document

/-!
# ItemShape.Parse.Fill

The first step of a parse: absent values are resolved, every value is checked against its schema.

`fillNode` handles one node: the extension first, then links and defaults for an absent value, then
the kind, and last the enumeration and the validator of the node. `fillAttributes` handles the
attributes of a map or item in two passes, because a link may read siblings declared after it.
-/

namespace ItemShape

/-- A link that has a context and yields a value wins over a default. -/
def resolveMissing (props : Props) (mode : Mode) (scope : Option LinkContext) : Option Value :=
  let linked :=
    match props.links.get? mode, scope with
    | some link, some context => link context
    | _, _ => none
  match linked with
  | some value => some value
  | none => (props.defaults.get? mode).map Default.resolve

def scalarMatches (kind : ScalarKind) (value : Value) : Bool :=
  match kind, value with
  | .any, .op _ => false
  | .any, _ => true
  | .null, .null => true
  | .boolean, .bool _ => true
  | .number, .number _ => true
  | .string, .string _ => true
  | _, _ => false

/-- The value is the same as one of the enumerated ones, if any are. -/
def checkEnumerated (enumerated : Option (List Value)) (path : ValuePath) (value : Value) :
    Except SchemaError Unit :=
  match enumerated with
  | none => .ok ()
  | some allowed =>
    if allowed.any (fun candidate => candidate.same value) then .ok ()
    else
      let texts := allowed.map (fun candidate => candidate.toJson.render)
      .error (.mismatch path ("one of " ++ String.intercalate ", " texts) value.toJson.render)

/-- The validator of the mode accepts the value, if there is one. -/
def checkValidator (validator : Option Validator) (kind : KindName) (path : ValuePath)
    (value : Value) : Except SchemaError Unit :=
  match validator with
  | none => .ok ()
  | some validator =>
    match validator value with
    | .valid => .ok ()
    | .invalid message =>
      .error (.invalid path (message.getD (kind.text ++ " value rejected by validator")))

/-- Checks of a node, made once its children are known to be right. -/
def checkFilled (props : Props) (kind : KindName) (settings : Settings) (filled : Filled) :
    Except SchemaError Unit :=
  match filled.value? with
  | none => .ok ()
  | some value =>
    match checkEnumerated props.enumerated settings.path value with
    | .error e => .error e
    | .ok _ => checkValidator (props.validators.get? settings.mode) kind settings.path value

/-! ## Lists, sets and records -/

/-- Items of a list, the first one at `position`. -/
def fillItems (fillItem : Settings → Option Value → Except SchemaError Filled)
    (settings : Settings) (position : Nat) : List Value → Except SchemaError (List Filled)
  | [] => .ok []
  | item :: rest =>
    match fillItem (settings.at (settings.path.index position)) (some item) with
    | .error e => .error e
    | .ok filled =>
      match fillItems fillItem settings (position + 1) rest with
      | .error e => .error e
      | .ok others => .ok (filled :: others)

/-- Members of a set, all at the place of the set. -/
def fillMembers (fillMember : Option Value → Except SchemaError Filled) :
    List Value → Except SchemaError (List Filled)
  | [] => .ok []
  | member :: rest =>
    match fillMember (some member) with
    | .error e => .error e
    | .ok filled =>
      match fillMembers fillMember rest with
      | .error e => .error e
      | .ok others => .ok (filled :: others)

/-- Entries of a record: the key is checked as a string, then the element is filled. -/
def fillEntries (fillKey fillElement : Settings → Option Value → Except SchemaError Filled)
    (settings : Settings) :
    List (String × Value) → Except SchemaError (List (String × Filled))
  | [] => .ok []
  | (key, element) :: rest =>
    let place := settings.at (settings.path.member key)
    match fillKey place (some (.string key)) with
    | .error e => .error e
    | .ok _ =>
      match fillElement place (some element) with
      | .error e => .error e
      | .ok filled =>
        match fillEntries fillKey fillElement settings rest with
        | .error e => .error e
        | .ok others => .ok ((key, filled) :: others)

/-! ## Attributes -/

/-- An attribute of a map or item: its names, whether it belongs to the key, whether it has a link
for the mode, and how it is filled. -/
structure Child where
  name : String
  stored : String
  isKey : Bool
  isLinked : Bool
  fill : Settings → Option LinkContext → Option Value → Except SchemaError Filled

/-- What the first pass leaves of an attribute. -/
inductive Attempt where
  | skipped
  | deferred
  | done (outcome : Except SchemaError Filled)

/-- The siblings after an attribute has been filled; nothing is recorded for an absent value. -/
def recordSibling (siblings : List (String × Value)) (name : String) (value : Option Value) :
    List (String × Value) :=
  match value with
  | none => siblings
  | some value => Entries.insert name value siblings

/-- The value of a successful attempt. -/
def outcomeValue? (outcome : Except SchemaError Filled) : Option Value :=
  match outcome with
  | .error _ => none
  | .ok filled => filled.value?

/-- First pass: fills the attributes in order, each in the context of the siblings before it. With
`keyOnly` the attributes outside the key are skipped, their raw values being visible all the same;
an absent linked attribute is put off. A failure does not end the pass. -/
def fillDirect (keyOnly : Bool) (settings : Settings) (scope : Option LinkContext)
    (input : List (String × Value)) :
    List Child → List (String × Value) → List (Child × Attempt) × List (String × Value)
  | [], siblings => ([], siblings)
  | child :: rest, siblings =>
    let raw := Entries.get? child.name input
    if keyOnly && !child.isKey then
      let seen := if settings.fill then recordSibling siblings child.name raw else siblings
      let others := fillDirect keyOnly settings scope input rest seen
      ((child, .skipped) :: others.1, others.2)
    else if raw.isNone && settings.fill && child.isLinked then
      let others := fillDirect keyOnly settings scope input rest siblings
      ((child, .deferred) :: others.1, others.2)
    else
      let place := settings.at (settings.path.member child.name)
      let outcome := child.fill place (some (LinkContext.nested scope siblings)) raw
      let seen :=
        if settings.fill then recordSibling siblings child.name (outcomeValue? outcome)
        else siblings
      let others := fillDirect keyOnly settings scope input rest seen
      ((child, .done outcome) :: others.1, others.2)

/-- Second pass: fills the attributes put off, each in the context of all siblings filled before
it, and collects the results in declaration order. The first error in that order is the error of
the map, in whichever pass it came up. -/
def fillDeferred (settings : Settings) (scope : Option LinkContext) :
    List (Child × Attempt) → List (String × Value) → Except SchemaError (List (Slot Filled))
  | [], _ => .ok []
  | (_, .skipped) :: rest, siblings => fillDeferred settings scope rest siblings
  | (_, .done (.error e)) :: _, _ => .error e
  | (child, .done (.ok filled)) :: rest, siblings =>
    match fillDeferred settings scope rest siblings with
    | .error e => .error e
    | .ok others => .ok (⟨child.name, child.stored, filled⟩ :: others)
  | (child, .deferred) :: rest, siblings =>
    let place := settings.at (settings.path.member child.name)
    match child.fill place (some (LinkContext.nested scope siblings)) none with
    | .error e => .error e
    | .ok filled =>
      match fillDeferred settings scope rest (recordSibling siblings child.name filled.value?) with
      | .error e => .error e
      | .ok others => .ok (⟨child.name, child.stored, filled⟩ :: others)

/-- The first name of the input that no attribute declares. -/
def undeclared? (children : List Child) (input : List (String × Value)) : Option String :=
  (Entries.names input).find? (fun name => !children.any (fun child => child.name == name))

def fillAttributes (children : List Child) (keyOnly : Bool) (settings : Settings)
    (scope : Option LinkContext) (input : List (String × Value)) : Except SchemaError Filled :=
  match undeclared? children input with
  | some name =>
    .error (.mismatch (settings.path.member name) "declared attribute" "undeclared attribute")
  | none =>
    let direct := fillDirect keyOnly settings scope input children []
    match fillDeferred settings scope direct.1 direct.2 with
    | .error e => .error e
    | .ok slots => .ok (.map slots)

/-! ## Nodes -/

/-- Names of the members of a union, for errors. -/
def memberNames (members : List Schema) : String :=
  String.intercalate " | " (members.map (fun member => member.kindName.text))

mutual

/-- One node: `input` is `none` where the value is absent, `scope` the context its links see. -/
def fillNode : Schema → Option Extension → Settings → Option LinkContext → Option Value →
    Except SchemaError Filled
  | .mk props kind, extension, settings, scope, input =>
    match Extension.consult extension (.mk props kind) settings input with
    | .extended parser =>
      match parser.next with
      | (some (.error e), _) => .error e
      | (some (.ok filled), rest) => .ok (.extended filled rest)
      | (none, rest) => .ok (.extended none rest)
    | .unextended given =>
      let resolved :=
        match given with
        | some value => some value
        | none => if settings.fill then resolveMissing props settings.mode scope else none
      match resolved with
      | none =>
        if props.required.isRequired settings.mode then .error (.missing settings.path)
        else .ok .absent
      | some value =>
        match fillKind kind props.transformer extension settings scope value with
        | .error e => .error e
        | .ok filled =>
          match checkFilled props kind.name settings filled with
          | .error e => .error e
          | .ok _ => .ok filled

/-- A value against a kind; `transformer` encodes it later if it is a scalar. -/
def fillKind : Kind Schema → Option Transformer → Option Extension → Settings →
    Option LinkContext → Value → Except SchemaError Filled
  | .scalar kind, transformer, _, settings, _, value =>
    if scalarMatches kind value then .ok (.scalar transformer value)
    else .error (.mismatch settings.path kind.name value.typeName)
  | .list elements, _, extension, settings, scope, value =>
    match value with
    | .list items =>
      match fillItems (fun place item => fillNode elements extension place scope item) settings 0
        items with
      | .error e => .error e
      | .ok filled => .ok (.list filled)
    | other => .error (.mismatch settings.path (KindName.text .list) other.typeName)
  | .set elements, _, _, settings, scope, value =>
    match value with
    | .list members =>
      if Value.hasDuplicates members then
        .error (.mismatch settings.path "set of unique members" "duplicate members")
      else
        match fillMembers (fun member => fillNode elements none settings scope member) members with
        | .error e => .error e
        | .ok filled => .ok (.set filled)
    | other => .error (.mismatch settings.path (KindName.text .set) other.typeName)
  | .map attributes, _, extension, settings, scope, value =>
    match value with
    | .map input =>
      fillAttributes (fillChildren attributes extension settings.mode) false settings scope input
    | other => .error (.mismatch settings.path (KindName.text .map) other.typeName)
  | .item attributes, _, extension, settings, scope, value =>
    match value with
    | .map input =>
      fillAttributes (fillChildren attributes extension settings.mode) (settings.mode == .key)
        settings scope input
    | other => .error (.mismatch settings.path (KindName.text .item) other.typeName)
  | .record keys elements, _, extension, settings, scope, value =>
    match value with
    | .map input =>
      match fillEntries (fun place key => fillNode keys none place none key)
        (fun place element => fillNode elements extension place scope element) settings input with
      | .error e => .error e
      | .ok entries => .ok (.record keys.transformer? entries)
    | other => .error (.mismatch settings.path (KindName.text .record) other.typeName)
  | .anyOf members, _, extension, settings, scope, value =>
    match fillFirst members extension settings scope value with
    | some filled => .ok filled
    | none => .error (.mismatch settings.path (memberNames members) value.typeName)

/-- The attributes of a map or item, ready to be filled. -/
def fillChildren : List (String × Schema) → Option Extension → Mode → List Child
  | [], _, _ => []
  | (name, schema) :: rest, extension, mode =>
    { name := name
      stored := schema.storedName name
      isKey := schema.isKey
      isLinked := (schema.link? mode).isSome
      fill := fun settings scope input => fillNode schema extension settings scope input } ::
      fillChildren rest extension mode

/-- The first member of a union that accepts the value. -/
def fillFirst : List Schema → Option Extension → Settings → Option LinkContext → Value →
    Option Filled
  | [], _, _, _, _ => none
  | member :: rest, extension, settings, scope, value =>
    match fillNode member extension settings scope (some value) with
    | .ok filled => some filled
    | .error _ => fillFirst rest extension settings scope value

end

end ItemShape
