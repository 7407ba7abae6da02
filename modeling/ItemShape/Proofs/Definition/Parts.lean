import ItemShape.Definition
import ItemShape.Proofs.Json.Tree

/-!
# ItemShape.Proofs.Definition.Parts

What a definition takes from its sub-definitions: for each keyword that holds some, the outcome of
decoding what stands under it, or an error where it is missing (`neededPart_decodeParts`,
`keysPart_decodeParts`, `attributesPart_decodeParts`, `membersPart_decodeParts`).
-/

namespace ItemShape
namespace Definition

variable [FragmentCompiler] {pointer : String} {members : List (String × Json)}

/-- The sub-definitions under one name, decoded. -/
def partAt (pointer name : String) (value : Json) : Part :=
  if name = "elements" ∨ name = "keys" then .one (decodeAt (Pointer.child pointer name) value)
  else
    match value with
    | .object definitions =>
      if name = "attributes" then .named (decodeNamed (Pointer.child pointer name) definitions)
      else .other
    | .array definitions =>
      if name = "members" then .listed (decodeListed (Pointer.child pointer name) 0 definitions)
      else .other
    | _ => .other

theorem decodeParts_eq_map : decodeParts pointer members =
    members.map fun entry => (entry.1, partAt pointer entry.1 entry.2) := by
  induction members with
  | nil => rfl
  | cons entry rest ih =>
    unfold decodeParts
    exact congrArg (List.cons _) ih

theorem get?_decodeParts (name : String) : Entries.get? name (decodeParts pointer members) =
    (Entries.get? name members).map (partAt pointer name) := by
  rw [decodeParts_eq_map, Entries.get?_map]

theorem neededPart_decodeParts {keyword : String} (hk : keyword = "elements" ∨ keyword = "keys") :
    neededPart pointer keyword (decodeParts pointer members) =
      (Entries.get? keyword members).elim
        (.error (invalid pointer ("missing \"" ++ keyword ++ "\"")))
        (decodeAt (Pointer.child pointer keyword)) := by
  rw [neededPart, get?_decodeParts]
  cases Entries.get? keyword members with
  | none => rfl
  | some value => simp only [Option.map, partAt, if_pos hk, Option.elim]

theorem keysPart_decodeParts : keysPart (decodeParts pointer members) =
    (Entries.get? "keys" members).elim (.ok (.scalar .string))
      (decodeAt (Pointer.child pointer "keys")) := by
  rw [keysPart, get?_decodeParts]
  cases Entries.get? "keys" members <;> rfl

theorem attributesPart_decodeParts : attributesPart pointer (decodeParts pointer members) =
    ((Entries.get? "attributes" members).bind Json.members?).elim
      (.error (invalid pointer "missing \"attributes\" object"))
      (decodeNamed (Pointer.child pointer "attributes")) := by
  rw [attributesPart, get?_decodeParts]
  cases Entries.get? "attributes" members with
  | none => rfl
  | some value => cases value <;> rfl

theorem membersPart_decodeParts : membersPart pointer (decodeParts pointer members) =
    ((Entries.get? "members" members).bind Json.items?).elim
      (.error (invalid pointer "anyOf needs a \"members\" array"))
      (decodeListed (Pointer.child pointer "members") 0) := by
  rw [membersPart, get?_decodeParts]
  cases Entries.get? "members" members with
  | none => rfl
  | some value => cases value <;> rfl

end Definition
end ItemShape
