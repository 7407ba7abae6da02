import ItemShape.Lint
import ItemShape.Proofs.Json.Tree

/-!
# ItemShape.Proofs.Lint.Findings

What the linter finds in a definition: the names of the definition that are no keywords, the names
of its validators that are no modes, and what it finds in the definitions directly inside
(`mem_keywordFindings_object`).
-/

namespace ItemShape
namespace Lint

variable {pointer : String} {members : List (String × Json)} {f : Finding}

/-- The definitions directly inside a definition, with the pointers to them. -/
inductive Part (pointer : String) (members : List (String × Json)) : String → Json → Prop where
  | one {keyword : String} {value : Json} (hk : keyword = "elements" ∨ keyword = "keys")
    (hv : Entries.get? keyword members = some value) :
    Part pointer members (Pointer.child pointer keyword) value
  | named {definitions : List (String × Json)} {name : String} {value : Json}
    (hv : Entries.get? "attributes" members = some (.object definitions))
    (hm : (name, value) ∈ definitions) :
    Part pointer members (Pointer.child (Pointer.child pointer "attributes") name) value
  | listed {definitions : List Json} {i : Nat} {value : Json}
    (hv : Entries.get? "members" members = some (.array definitions))
    (hi : definitions[i]? = some value) :
    Part pointer members (Pointer.child (Pointer.child pointer "members") (toString i)) value

theorem Part.below {place : String} {value : Json} (h : Part pointer members place value) :
    value.Below (.object members) := by
  cases h with
  | one _ hv => exact .child (Json.mem_children_of_get? hv)
  | named hv hm =>
    exact .inside (.child (Json.mem_children_of_members? rfl hm)) (Json.mem_children_of_get? hv)
  | listed hv hi =>
    exact .inside (.child (Json.mem_children_of_items? rfl (List.mem_of_getElem? hi)))
      (Json.mem_children_of_get? hv)

/-! ## Unknown names -/

/-- The names of the members that are not among the known ones. -/
def unknownNames (known : List String) (members : List (String × Json)) : List String :=
  (Entries.names members).filter fun name => !known.contains name

theorem unknownKeywords_eq_map : unknownKeywords pointer members =
    (unknownNames Definition.keywords members).map fun name =>
      .unknownKeyword (Pointer.child pointer name) name := by
  unfold unknownNames
  induction members with
  | nil => rfl
  | cons entry rest ih =>
    rw [unknownKeywords, ih, Entries.names_cons, List.filter_cons]
    cases Definition.keywords.contains entry.1 <;> rfl

theorem unknownModes_eq_map : unknownModes pointer members =
    (unknownNames Mode.names members).map fun name =>
      .unknownMode (Pointer.child pointer name) name := by
  unfold unknownNames
  induction members with
  | nil => rfl
  | cons entry rest ih =>
    rw [unknownModes, ih, Entries.names_cons, List.filter_cons]
    cases Mode.names.contains entry.1 <;> rfl

theorem mem_unknownKeywords : f ∈ unknownKeywords pointer members ↔
    ∃ name ∈ Entries.names members, name ∉ Definition.keywords ∧
      f = .unknownKeyword (Pointer.child pointer name) name := by
  simp [unknownKeywords_eq_map, unknownNames, and_assoc, @eq_comm _ _ f]

theorem mem_unknownModes : f ∈ unknownModes pointer members ↔
    ∃ name ∈ Entries.names members, name ∉ Mode.names ∧
      f = .unknownMode (Pointer.child pointer name) name := by
  simp [unknownModes_eq_map, unknownNames, and_assoc, @eq_comm _ _ f]

theorem mem_validatorFindings : f ∈ validatorFindings pointer members ↔
    ∃ fragments, Entries.get? "validate" members = some (.object fragments) ∧
      f ∈ unknownModes (Pointer.child pointer "validate") fragments := by
  rw [validatorFindings]
  split
  · rename_i fragments hv
    simp [hv]
  · rename_i hv
    simp only [List.not_mem_nil, false_iff, not_exists, not_and]
    exact fun fragments h => absurd h (hv fragments)

/-! ## Definitions inside -/

/-- The findings of the definitions under one name. -/
def partFindingsAt (pointer name : String) (value : Json) : List Finding :=
  if name = "elements" ∨ name = "keys" then keywordFindings (Pointer.child pointer name) value
  else
    match value with
    | .object definitions =>
      if name = "attributes" then namedFindings (Pointer.child pointer name) definitions else []
    | .array definitions =>
      if name = "members" then listedFindings (Pointer.child pointer name) 0 definitions else []
    | _ => []

theorem partFindings_eq_map : partFindings pointer members =
    members.map fun entry => (entry.1, partFindingsAt pointer entry.1 entry.2) := by
  induction members with
  | nil => rfl
  | cons entry rest ih =>
    unfold partFindings
    exact congrArg (List.cons _) ih

theorem mem_get?_partFindings {keyword : String} :
    f ∈ (Entries.get? keyword (partFindings pointer members)).getD [] ↔
      ∃ value, Entries.get? keyword members = some value ∧
        f ∈ partFindingsAt pointer keyword value := by
  rw [partFindings_eq_map, Entries.get?_map]
  cases Entries.get? keyword members <;> simp

theorem namedFindings_eq_flatMap {definitions : List (String × Json)} :
    namedFindings pointer definitions = definitions.flatMap fun entry =>
      keywordFindings (Pointer.child pointer entry.1) entry.2 := by
  induction definitions with
  | nil => rfl
  | cons entry rest ih => rw [namedFindings, ih, List.flatMap_cons]

theorem listedFindings_eq_flatMap {definitions : List Json} {start : Nat} :
    listedFindings pointer start definitions = (definitions.zipIdx start).flatMap fun item =>
      keywordFindings (Pointer.child pointer (toString item.2)) item.1 := by
  induction definitions generalizing start with
  | nil => rfl
  | cons item rest ih => rw [listedFindings, ih, List.zipIdx_cons, List.flatMap_cons]

theorem mem_namedFindings : f ∈ namedFindings pointer members ↔
    ∃ entry ∈ members, f ∈ keywordFindings (Pointer.child pointer entry.1) entry.2 := by
  rw [namedFindings_eq_flatMap, List.mem_flatMap]

theorem mem_listedFindings {items : List Json} {start : Nat} :
    f ∈ listedFindings pointer start items ↔ ∃ i item, items[i]? = some item ∧
      f ∈ keywordFindings (Pointer.child pointer (toString (start + i))) item := by
  rw [listedFindings_eq_flatMap, List.mem_flatMap]
  constructor
  · rintro ⟨⟨item, position⟩, hi, hf⟩
    obtain ⟨hle, hi⟩ := List.mk_mem_zipIdx_iff_le_and_getElem?_sub.mp hi
    refine ⟨position - start, item, hi, ?_⟩
    rwa [Nat.add_sub_cancel' hle]
  · rintro ⟨i, item, hi, hf⟩
    refine ⟨(item, start + i), ?_, hf⟩
    refine List.mk_mem_zipIdx_iff_le_and_getElem?_sub.mpr ⟨Nat.le_add_right start i, ?_⟩
    rwa [Nat.add_sub_cancel_left]

/-- What is found in a definition: its own unknown names, and what is found in its parts. -/
theorem mem_keywordFindings_object : f ∈ keywordFindings pointer (.object members) ↔
    f ∈ unknownKeywords pointer members ∨ f ∈ validatorFindings pointer members ∨
      ∃ place value, Part pointer members place value ∧ f ∈ keywordFindings place value := by
  have under {keyword : String} (hk : keyword = "elements" ∨ keyword = "keys") :
      f ∈ (Entries.get? keyword (partFindings pointer members)).getD [] ↔
        ∃ value, Entries.get? keyword members = some value ∧
          f ∈ keywordFindings (Pointer.child pointer keyword) value := by
    simp only [mem_get?_partFindings, partFindingsAt, if_pos hk]
  have attributes : f ∈ (Entries.get? "attributes" (partFindings pointer members)).getD [] ↔
      ∃ definitions, Entries.get? "attributes" members = some (.object definitions) ∧
        f ∈ namedFindings (Pointer.child pointer "attributes") definitions := by
    rw [mem_get?_partFindings]
    constructor
    · rintro ⟨value, hv, h⟩
      cases value with
      | object definitions => exact ⟨definitions, hv, h⟩
      | _ => cases h
    · rintro ⟨definitions, hv, h⟩
      exact ⟨_, hv, h⟩
  have listed : f ∈ (Entries.get? "members" (partFindings pointer members)).getD [] ↔
      ∃ definitions, Entries.get? "members" members = some (.array definitions) ∧
        f ∈ listedFindings (Pointer.child pointer "members") 0 definitions := by
    rw [mem_get?_partFindings]
    constructor
    · rintro ⟨value, hv, h⟩
      cases value with
      | array definitions => exact ⟨definitions, hv, h⟩
      | _ => cases h
    · rintro ⟨definitions, hv, h⟩
      exact ⟨_, hv, h⟩
  simp only [keywordFindings, ofParts, childKeywords, List.flatMap_cons, List.flatMap_nil,
    List.append_nil, List.mem_append, under (.inl rfl), under (.inr rfl), attributes, listed,
    mem_namedFindings, mem_listedFindings, Nat.zero_add, or_assoc]
  refine or_congr_right (or_congr_right ⟨?_, ?_⟩)
  · rintro (⟨value, hv, h⟩ | ⟨value, hv, h⟩ | ⟨definitions, hv, ⟨name, value⟩, hm, h⟩ |
      ⟨definitions, hv, i, value, hi, h⟩)
    · exact ⟨_, _, .one (.inl rfl) hv, h⟩
    · exact ⟨_, _, .one (.inr rfl) hv, h⟩
    · exact ⟨_, _, .named hv hm, h⟩
    · exact ⟨_, _, .listed hv hi, h⟩
  · rintro ⟨_, _, hp, h⟩
    cases hp with
    | one hk hv =>
      rcases hk with rfl | rfl
      · exact .inl ⟨_, hv, h⟩
      · exact .inr (.inl ⟨_, hv, h⟩)
    | named hv hm => exact .inr (.inr (.inl ⟨_, hv, _, hm, h⟩))
    | listed hv hi => exact .inr (.inr (.inr ⟨_, hv, _, _, hi, h⟩))

end Lint
end ItemShape
