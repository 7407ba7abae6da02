import ItemShape.Proofs.Value.Notation

/-!
# ItemShape.Proofs.Value.Written

Two ways to write a value: part by part as it stands, or by way of the document `toJson`. They agree,
whatever is written (`written_as_toJson`).

What is made of each part is a `Json.Writer`. The text of a value (`write_text`) and its document
are two of them. Writing a value changes over to documents below an operation, where only the
payload is made into one, so the two ways are compared one level of operations at a time.
-/

namespace ItemShape
namespace Json

/-- What is made of each part of a document, given what has been made of the parts inside. -/
structure Writer (α : Type) where
  null : α
  bool : Bool → α
  number : Number → α
  string : String → α
  array : List α → α
  object : List (String × α) → α

/-- Writes the document itself. -/
def Writer.document : Writer Json where
  null := .null
  bool := .bool
  number := .number
  string := .string
  array := .array
  object := .object

/-- Writes compact text. -/
def Writer.text : Writer String where
  null := "null"
  bool := boolText
  number := Number.render
  string := quote
  array := arrayText
  object members := objectText (members.map fun member => memberText member.1 member.2)

variable {α : Type}

mutual

def write (w : Writer α) : Json → α
  | .null => w.null
  | .bool b => w.bool b
  | .number n => w.number n
  | .string s => w.string s
  | .array items => w.array (writeItems w items)
  | .object members => w.object (writeMembers w members)

def writeItems (w : Writer α) : List Json → List α
  | [] => []
  | item :: rest => write w item :: writeItems w rest

def writeMembers (w : Writer α) : List (String × Json) → List (String × α)
  | [] => []
  | (name, value) :: rest => (name, write w value) :: writeMembers w rest

end

end Json

namespace Value

variable {α : Type}

mutual

/-- Writes a value as it stands; of an operation the payload is written as a document. -/
def write (w : Json.Writer α) : Value → α
  | .null => w.null
  | .bool b => w.bool b
  | .number n => w.number n
  | .string s => w.string s
  | .list items => w.array (writeItems w items)
  | .map entries => w.object (writeEntries w entries)
  | .op operation => w.object [(operation.tag.key, (payloadToJson operation).write w)]

def writeItems (w : Json.Writer α) : List Value → List α
  | [] => []
  | item :: rest => write w item :: writeItems w rest

def writeEntries (w : Json.Writer α) : List (String × Value) → List (String × α)
  | [] => []
  | (name, value) :: rest => (name, write w value) :: writeEntries w rest

end

end Value

/-! ## Parts one by one -/

namespace Json

variable {α : Type}

theorem writeItems_eq_map (w : Writer α) (items : List Json) :
    writeItems w items = items.map (write w) := by
  induction items with
  | nil => rfl
  | cons item rest ih => rw [writeItems, ih, List.map_cons]

theorem writeMembers_eq_map (w : Writer α) (members : List (String × Json)) :
    writeMembers w members = members.map fun member => (member.1, write w member.2) := by
  induction members with
  | nil => rfl
  | cons member rest ih => rw [writeMembers, ih, List.map_cons]

theorem renderItems_eq_map (items : List Json) : renderItems items = items.map render := by
  induction items with
  | nil => rfl
  | cons item rest ih => rw [renderItems, ih, List.map_cons]

theorem renderMembers_eq_map (members : List (String × Json)) :
    renderMembers members = members.map fun member => memberText member.1 member.2.render := by
  induction members with
  | nil => rfl
  | cons member rest ih => rw [renderMembers, ih, List.map_cons]

theorem write_document (j : Json) : j.write .document = j := by
  induction j using Json.induct with
  | array items ih =>
    rw [write, writeItems_eq_map, List.map_congr_left ih, List.map_id']
    rfl
  | object members ih =>
    have each : ∀ member ∈ members, (member.1, write .document member.2) = member :=
      fun member hm => congrArg (Prod.mk member.1) (ih member hm)
    rw [write, writeMembers_eq_map, List.map_congr_left each, List.map_id']
    rfl
  | _ => rfl

theorem write_text (j : Json) : j.write .text = j.render := by
  induction j using Json.induct with
  | array items ih =>
    rw [write, writeItems_eq_map, List.map_congr_left ih, render, renderItems_eq_map]
    rfl
  | object members ih =>
    have each : ∀ member ∈ members, memberText member.1 (write .text member.2) =
        memberText member.1 member.2.render :=
      fun member hm => congrArg (memberText member.1) (ih member hm)
    rw [write, writeMembers_eq_map, render, renderMembers_eq_map, ← List.map_congr_left each]
    exact congrArg objectText List.map_map
  | _ => rfl

end Json

namespace Value

variable {α : Type}

theorem writeItems_eq_map (w : Json.Writer α) (items : List Value) :
    writeItems w items = items.map (write w) := by
  induction items with
  | nil => rfl
  | cons item rest ih => rw [writeItems, ih, List.map_cons]

theorem writeEntries_eq_map (w : Json.Writer α) (entries : List (String × Value)) :
    writeEntries w entries = entries.map fun entry => (entry.1, write w entry.2) := by
  induction entries with
  | nil => rfl
  | cons entry rest ih => rw [writeEntries, ih, List.map_cons]

theorem renderItems_eq_map (items : List Value) : renderItems items = items.map render := by
  induction items with
  | nil => rfl
  | cons item rest ih => rw [renderItems, ih, List.map_cons]

theorem renderEntries_eq_map (entries : List (String × Value)) :
    renderEntries entries = entries.map fun entry => Json.memberText entry.1 entry.2.render := by
  induction entries with
  | nil => rfl
  | cons entry rest ih => rw [renderEntries, ih, List.map_cons]

/-- The text of a value is written part by part. -/
theorem write_text (v : Value) : v.write .text = v.render := by
  induction v using Value.induct with
  | list items ih =>
    rw [write, writeItems_eq_map, List.map_congr_left ih, render, renderItems_eq_map]
    rfl
  | map entries ih =>
    have each : ∀ entry ∈ entries, Json.memberText entry.1 (write .text entry.2) =
        Json.memberText entry.1 entry.2.render :=
      fun entry hm => congrArg (Json.memberText entry.1) (ih entry hm)
    rw [write, writeEntries_eq_map, render, renderEntries_eq_map, ← List.map_congr_left each]
    exact congrArg Json.objectText List.map_map
  | op operation _ =>
    rw [write, render, Json.write_text]
    rfl
  | _ => rfl

theorem toJson_op (operation : Operation Value) :
    toJson (.op operation) = .object [(operation.tag.key, payloadToJson operation)] := by
  cases operation with
  | get source fallback => cases fallback <;> rfl
  | _ => rfl

/-- By induction on the value; an operation needs no hypothesis, its payload being a document. -/
theorem write_eq_write_toJson (w : Json.Writer α) (v : Value) : v.write w = v.toJson.write w := by
  induction v using Value.induct with
  | list items ih =>
    rw [write, writeItems_eq_map, toJson_list, Json.write, Json.writeItems_eq_map, List.map_map,
      List.map_congr_left ih]
    rfl
  | map entries ih =>
    rw [write, writeEntries_eq_map, toJson_map, Json.write, Json.writeMembers_eq_map, List.map_map]
    refine congrArg w.object (List.map_congr_left fun entry hm => ?_)
    exact congrArg (Prod.mk entry.1) (ih entry hm)
  | op operation _ =>
    rw [toJson_op]
    rfl
  | _ => rfl

/-- What is written of a value is what is written of its document: the document itself, its text,
and whatever else is made of the parts. -/
theorem written_as_toJson (v : Value) : v.write .document = v.toJson ∧
    v.render = v.toJson.render ∧ ∀ (α : Type) (w : Json.Writer α), v.write w = v.toJson.write w := by
  refine ⟨?_, ?_, fun _ w => write_eq_write_toJson w v⟩
  · rw [write_eq_write_toJson, Json.write_document]
  · rw [← write_text, write_eq_write_toJson, Json.write_text]

end Value
end ItemShape
