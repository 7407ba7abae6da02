import ItemShape.Proofs.Definition.Parts
import ItemShape.Proofs.Json.Pointer
import ItemShape.Proofs.Lint.Findings

/-!
# ItemShape.Proofs.Lint.Harmless

Warnings of the linter are about what decoding does not read: a definition without the members
that are reported is decoded as before (`decode_strip`).

* `Lint.strip`: a definition without the members at the pointers of its warnings.
* `Lint.Role`: what a value in a document is to the definition it belongs to. A pointer leads to one
  role only (`Leads.unique`), and warnings are about the role `ignored` (`keywordFindings_ignored`).
* `decodeAt_without`: taking members of that role away changes no outcome, whatever the type of the
  definition uses of what it holds.
-/

namespace ItemShape

theorem Mode.ofName?_eq_none {name : String} (h : name ∉ names) : ofName? name = none := by
  refine List.find?_eq_none.mpr fun mode hm hn => h ?_
  exact List.mem_map.mpr ⟨mode, hm, by simpa using hn⟩

/-! ## Stripped documents -/

mutual

/-- The document at `pointer` without the members of objects at the reported pointers. -/
def Json.without (reported : List String) (pointer : String) : Json → Json
  | .null => .null
  | .bool b => .bool b
  | .number n => .number n
  | .string s => .string s
  | .array items => .array (itemsWithout reported pointer 0 items)
  | .object members => .object (membersWithout reported pointer members)

def itemsWithout (reported : List String) (pointer : String) (position : Nat) :
    List Json → List Json
  | [] => []
  | item :: rest =>
    item.without reported (Pointer.child pointer (toString position)) ::
      itemsWithout reported pointer (position + 1) rest

def membersWithout (reported : List String) (pointer : String) :
    List (String × Json) → List (String × Json)
  | [] => []
  | (name, value) :: rest =>
    if Pointer.child pointer name ∈ reported then membersWithout reported pointer rest
    else
      (name, value.without reported (Pointer.child pointer name)) ::
        membersWithout reported pointer rest

end

namespace Lint

/-- A definition without the members that warnings are about. -/
def strip (definition : Json) : Json :=
  definition.without ((keywordFindings "" definition).map Finding.pointer) ""

/-! ## Roles -/

/-- What a value is to the definition that it belongs to. -/
inductive Role where
  | definition
  /-- The object of the attributes of a map or item. -/
  | attributes
  /-- The array of the members of a union. -/
  | members
  /-- The object of the validators of the modes. -/
  | validators
  /-- Read as it is, with all that is in it. -/
  | content
  /-- Not read. -/
  | ignored
  deriving DecidableEq

/-- The role of what stands under a name, or at an index, in a value of this role. -/
def Role.step : Role → String → Role
  | definition, name =>
    if name = "elements" ∨ name = "keys" then definition
    else if name = "attributes" then attributes
    else if name = "members" then members
    else if name = "validate" then validators
    else if name ∈ Definition.keywords then content
    else ignored
  | attributes, _ | members, _ => definition
  | validators, name => if name ∈ Mode.names then content else ignored
  | content, _ | ignored, _ => content

/-- The pointer leads from a definition to a value of this role. -/
inductive Leads : String → Role → Prop where
  | root : Leads "" .definition
  | step {pointer : String} {role : Role} (h : Leads pointer role) (name : String) :
    Leads (Pointer.child pointer name) (role.step name)

theorem Leads.unique {pointer : String} {role role' : Role} (h : Leads pointer role)
    (h' : Leads pointer role') : role = role' := by
  induction h generalizing role' with
  | root =>
    generalize hp : "" = pointer at h'
    cases h' with
    | root => rfl
    | step _ name => exact absurd hp.symm (Pointer.child_ne_empty _ _)
  | @step pointer role _ name ih =>
    generalize hp : Pointer.child pointer name = other at h'
    cases h' with
    | root => exact absurd hp (Pointer.child_ne_empty _ _)
    | step h' key =>
      obtain ⟨rfl, rfl⟩ := Pointer.child_inj.mp hp
      rw [ih h']

theorem Role.step_unknown {name : String} (h : name ∉ Definition.keywords) :
    definition.step name = ignored := by
  have other {keyword : String} (hk : keyword ∈ Definition.keywords) : name ≠ keyword := by
    rintro rfl
    exact h hk
  rw [step, if_neg (not_or.mpr ⟨other (by decide), other (by decide)⟩), if_neg (other (by decide)),
    if_neg (other (by decide)), if_neg (other (by decide)), if_neg h]

/-! ### Warnings are about what is ignored -/

variable {pointer : String} {role : Role}

theorem Leads.one (h : Leads pointer .definition) {keyword : String}
    (hk : keyword = "elements" ∨ keyword = "keys") :
    Leads (Pointer.child pointer keyword) .definition := by
  have hr : Role.definition.step keyword = .definition := by rw [Role.step, if_pos hk]
  exact hr ▸ h.step keyword

theorem Leads.attributes (h : Leads pointer .definition) :
    Leads (Pointer.child pointer "attributes") .attributes :=
  h.step "attributes"

theorem Leads.members (h : Leads pointer .definition) :
    Leads (Pointer.child pointer "members") .members :=
  h.step "members"

theorem Leads.validators (h : Leads pointer .definition) :
    Leads (Pointer.child pointer "validate") .validators :=
  h.step "validate"

theorem Leads.part {members : List (String × Json)} {place : String} {value : Json}
    (h : Leads pointer .definition) (hp : Part pointer members place value) :
    Leads place .definition := by
  cases hp with
  | one hk _ => exact h.one hk
  | named _ _ => exact h.attributes.step _
  | listed _ _ => exact h.members.step _

theorem keywordFindings_ignored {f : Finding} (d : Json) (h : Leads pointer .definition)
    (hf : f ∈ keywordFindings pointer d) : Leads f.pointer .ignored := by
  induction d using Json.induct_below generalizing pointer with
  | step d ih =>
    cases d with
    | object members =>
      rcases mem_keywordFindings_object.mp hf with hf | hf | ⟨place, value, hp, hf⟩
      · obtain ⟨name, -, hn, rfl⟩ := mem_unknownKeywords.mp hf
        exact Role.step_unknown hn ▸ h.step name
      · obtain ⟨fragments, -, hf⟩ := mem_validatorFindings.mp hf
        obtain ⟨name, -, hn, rfl⟩ := mem_unknownModes.mp hf
        have hr : Role.validators.step name = .ignored := by rw [Role.step, if_neg hn]
        exact hr ▸ h.validators.step name
      · exact ih value hp.below (h.part hp) hf
    | _ => cases hf

/-! ## What decoding reads -/

section Reads

open Definition

variable {members others : List (String × Json)}

theorem decodeProps_congr [FragmentCompiler] {schema : Schema}
    (content : ∀ keyword, Role.definition.step keyword = .content →
      Entries.get? keyword members = Entries.get? keyword others)
    (validate : ∀ schema, decodeValidate pointer members schema =
      decodeValidate pointer others schema) :
    decodeProps pointer members schema = decodeProps pointer others schema := by
  simp only [decodeProps, decodeRequired, decodeKey, decodeHidden, flag, decodeSavedAs,
    decodeEnumerated, decodeDefault, decodeTransform, validate, content "required" rfl,
    content "key" rfl, content "hidden" rfl, content "savedAs" rfl, content "enum" rfl,
    content "default" rfl, content "transform" rfl]

theorem decodeKind_congr {parts parts' : Parts} {kind : KindName}
    (elements : neededPart pointer "elements" parts = neededPart pointer "elements" parts')
    (keys : keysPart parts = keysPart parts')
    (attributes : attributesPart pointer parts = attributesPart pointer parts')
    (members : membersPart pointer parts = membersPart pointer parts') :
    decodeKind pointer parts kind = decodeKind pointer parts' kind := by
  cases kind <;> simp only [decodeKind, elements, keys, attributes, members]

end Reads

/-! ## Decoding stripped documents -/

section Kept

open Definition

variable {reported : List String} {members : List (String × Json)}

theorem membersWithout_eq : membersWithout reported pointer members =
    (members.filter fun entry => Pointer.child pointer entry.1 ∉ reported).map fun entry =>
      (entry.1, entry.2.without reported (Pointer.child pointer entry.1)) := by
  induction members with
  | nil => rfl
  | cons entry rest ih =>
    rw [membersWithout, ih]
    split
    · rename_i hr
      rw [List.filter_cons_of_neg (by simpa using hr)]
    · rename_i hr
      rw [List.filter_cons_of_pos (by simpa using hr), List.map_cons]

theorem mem_membersWithout {name : String} {kept : Json} :
    (name, kept) ∈ membersWithout reported pointer members ↔
      Pointer.child pointer name ∉ reported ∧ ∃ value, (name, value) ∈ members ∧
        value.without reported (Pointer.child pointer name) = kept := by
  simp only [membersWithout_eq, List.mem_map, List.mem_filter, decide_eq_true_eq, Prod.exists,
    Prod.mk.injEq]
  constructor
  · rintro ⟨_, value, ⟨hm, hr⟩, rfl, rfl⟩
    exact ⟨hr, value, hm, rfl⟩
  · rintro ⟨hr, value, hm, rfl⟩
    exact ⟨name, value, ⟨hm, hr⟩, rfl, rfl⟩

theorem get?_membersWithout {name : String} (hr : Pointer.child pointer name ∉ reported) :
    Entries.get? name (membersWithout reported pointer members) =
      (Entries.get? name members).map fun value =>
        value.without reported (Pointer.child pointer name) := by
  rw [membersWithout_eq, Entries.get?_map fun name value =>
    Json.without reported (Pointer.child pointer name) value, Entries.get?_filter fun name =>
    Pointer.child pointer name ∉ reported, if_pos (decide_eq_true hr)]

theorem getElem?_itemsWithout {items : List Json} {position i : Nat} :
    (itemsWithout reported pointer position items)[i]? = items[i]?.map fun item =>
      item.without reported (Pointer.child pointer (toString (position + i))) := by
  induction items generalizing position i with
  | nil => rfl
  | cons item rest ih =>
    rw [itemsWithout]
    cases i with
    | zero => rfl
    | succ i =>
      rw [List.getElem?_cons_succ, List.getElem?_cons_succ, ih, Nat.add_right_comm, Nat.add_assoc]

theorem itemsWithout_eq_self {items : List Json} {position : Nat}
    (same : ∀ item ∈ items, ∀ name, item.without reported (Pointer.child pointer name) = item) :
    itemsWithout reported pointer position items = items := by
  induction items generalizing position with
  | nil => rfl
  | cons item rest ih =>
    rw [itemsWithout, same item List.mem_cons_self, ih fun item hi =>
      same item (List.mem_cons_of_mem _ hi)]

theorem decodeListed_without [FragmentCompiler] {definitions : List Json} {position : Nat}
    (h : Leads pointer .members)
    (same : ∀ definition ∈ definitions, ∀ place, Leads place .definition →
      decodeAt place (definition.without reported place) = decodeAt place definition) :
    decodeListed pointer position (itemsWithout reported pointer position definitions) =
      decodeListed pointer position definitions := by
  induction definitions generalizing position with
  | nil => rfl
  | cons definition rest ih =>
    rw [itemsWithout, decodeListed, decodeListed,
      same definition List.mem_cons_self _ (h.step (toString position)),
      ih fun definition hd => same definition (List.mem_cons_of_mem _ hd)]

end Kept

section Stripped

open Definition

variable {reported : List String} (ignored : ∀ place ∈ reported, Leads place .ignored)

include ignored

theorem notMem_of_leads (h : Leads pointer role) (hr : role ≠ .ignored) : pointer ∉ reported :=
  fun hm => hr (h.unique (ignored pointer hm))

theorem without_content (j : Json) (h : Leads pointer .content) :
    j.without reported pointer = j := by
  induction j using Json.induct generalizing pointer with
  | array items ih =>
    rw [Json.without, itemsWithout_eq_self fun item hi name => ih item hi (h.step name)]
  | object members ih =>
    have content (name : String) : Leads (Pointer.child pointer name) .content := h.step name
    have kept (name : String) : Pointer.child pointer name ∉ reported :=
      notMem_of_leads ignored (content name) (by decide)
    rw [Json.without, membersWithout_eq, List.filter_eq_self.mpr fun entry _ =>
      decide_eq_true (kept entry.1), map_eq_self_iff.mpr]
    exact fun entry he => Prod.ext rfl (ih entry he (content entry.1))
  | _ => rfl

theorem get?_content {members : List (String × Json)} {keyword : String}
    (h : Leads pointer .definition) (hk : Role.definition.step keyword = .content) :
    Entries.get? keyword (membersWithout reported pointer members) =
      Entries.get? keyword members := by
  have hstep : Leads (Pointer.child pointer keyword) .content := hk ▸ h.step keyword
  rw [get?_membersWithout (notMem_of_leads ignored hstep (by decide))]
  simp only [without_content ignored _ hstep, Option.map_id']

section Decoded

variable [FragmentCompiler]

theorem decodeValidators_without {schema : Schema} (h : Leads pointer .validators)
    (fragments : List (String × Json)) :
    decodeValidators pointer schema (membersWithout reported pointer fragments) =
      decodeValidators pointer schema fragments := by
  induction fragments generalizing schema with
  | nil => rfl
  | cons entry rest ih =>
    obtain ⟨name, fragment⟩ := entry
    have hstep := h.step name
    rw [membersWithout]
    by_cases hn : name ∈ Mode.names
    · rw [Role.step, if_pos hn] at hstep
      rw [if_neg (notMem_of_leads ignored hstep (by decide)),
        without_content ignored fragment hstep]
      simp only [decodeValidators, ih]
    · -- No mode has this name: its member may stay or go.
      split <;> simp only [decodeValidators, Mode.ofName?_eq_none hn, ih]

theorem decodeNamed_without {definitions : List (String × Json)} (h : Leads pointer .attributes)
    (same : ∀ entry ∈ definitions, ∀ place, Leads place .definition →
      decodeAt place (entry.2.without reported place) = decodeAt place entry.2) :
    decodeNamed pointer (membersWithout reported pointer definitions) =
      decodeNamed pointer definitions := by
  induction definitions with
  | nil => rfl
  | cons entry rest ih =>
    have hstep : Leads (Pointer.child pointer entry.1) .definition := h.step entry.1
    rw [membersWithout, if_neg (notMem_of_leads ignored hstep (by decide)), decodeNamed,
      decodeNamed, same entry List.mem_cons_self _ hstep,
      ih fun entry he => same entry (List.mem_cons_of_mem _ he)]

theorem decodeValidate_without {members : List (String × Json)} {schema : Schema}
    (h : Leads pointer .definition) :
    decodeValidate pointer (membersWithout reported pointer members) schema =
      decodeValidate pointer members schema := by
  rw [decodeValidate, decodeValidate,
    get?_membersWithout (notMem_of_leads ignored h.validators (by decide))]
  cases Entries.get? "validate" members with
  | none => rfl
  | some value =>
    cases value with
    | object fragments => exact decodeValidators_without ignored h.validators fragments
    | _ => rfl

theorem decodeProps_without {members : List (String × Json)} {schema : Schema}
    (h : Leads pointer .definition) :
    decodeProps pointer (membersWithout reported pointer members) schema =
      decodeProps pointer members schema :=
  decodeProps_congr (fun _ => get?_content ignored h) fun _ => decodeValidate_without ignored h

/-- The kind comes out the same if the definitions inside do. -/
theorem decodeKind_without {members : List (String × Json)} {kind : KindName}
    (h : Leads pointer .definition)
    (same : ∀ d, d.Below (.object members) → ∀ place, Leads place .definition →
      decodeAt place (d.without reported place) = decodeAt place d) :
    decodeKind pointer (decodeParts pointer (membersWithout reported pointer members)) kind =
      decodeKind pointer (decodeParts pointer members) kind := by
  have one {keyword : String} (hk : keyword = "elements" ∨ keyword = "keys")
      (missing : Except LoadError Schema) :
      (Entries.get? keyword (membersWithout reported pointer members)).elim missing
          (decodeAt (Pointer.child pointer keyword)) =
        (Entries.get? keyword members).elim missing
          (decodeAt (Pointer.child pointer keyword)) := by
    rw [get?_membersWithout (notMem_of_leads ignored (h.one hk) (by decide))]
    cases hv : Entries.get? keyword members with
    | none => rfl
    | some value => exact same value (.child (Json.mem_children_of_get? hv)) _ (h.one hk)
  apply decodeKind_congr
  case elements =>
    rw [neededPart_decodeParts (.inl rfl), neededPart_decodeParts (.inl rfl), one (.inl rfl)]
  case keys => rw [keysPart_decodeParts, keysPart_decodeParts, one (.inr rfl)]
  case attributes =>
    rw [attributesPart_decodeParts, attributesPart_decodeParts,
      get?_membersWithout (notMem_of_leads ignored h.attributes (by decide))]
    cases hv : Entries.get? "attributes" members with
    | none => rfl
    | some value =>
      cases value with
      | object definitions =>
        exact decodeNamed_without ignored h.attributes fun entry he =>
          same entry.2 (.inside (.child (Json.mem_children_of_members? rfl he))
            (Json.mem_children_of_get? hv))
      | _ => rfl
  case members =>
    rw [membersPart_decodeParts, membersPart_decodeParts,
      get?_membersWithout (notMem_of_leads ignored h.members (by decide))]
    cases hv : Entries.get? "members" members with
    | none => rfl
    | some value =>
      cases value with
      | array definitions =>
        exact decodeListed_without h.members fun definition hd =>
          same definition (.inside (.child (Json.mem_children_of_items? rfl hd))
            (Json.mem_children_of_get? hv))
      | _ => rfl

/-- Taking away what is ignored changes no outcome of decoding. -/
theorem decodeAt_without (d : Json) (h : Leads pointer .definition) :
    decodeAt pointer (d.without reported pointer) = decodeAt pointer d := by
  induction d using Json.induct_below generalizing pointer with
  | step d ih =>
    cases d with
    | object members =>
      have type : Entries.get? "type" (membersWithout reported pointer members) =
          Entries.get? "type" members :=
        get?_content ignored h rfl
      have kind (kind : KindName) :
          decodeKind pointer (decodeParts pointer (membersWithout reported pointer members)) kind =
            decodeKind pointer (decodeParts pointer members) kind :=
        decodeKind_without ignored h fun d hd _ => ih d hd
      simp only [Json.without, decodeAt, decodeObject, type, kind, decodeProps_without ignored h]
    | _ => rfl

end Decoded

/-! ### What is left to warn about -/

theorem get?_of_without {members : List (String × Json)} {name : String} {kept : Json}
    (hl : Leads (Pointer.child pointer name) role) (hr : role ≠ .ignored)
    (hv : Entries.get? name (membersWithout reported pointer members) = some kept) :
    ∃ value, Entries.get? name members = some value ∧
      value.without reported (Pointer.child pointer name) = kept := by
  rw [get?_membersWithout (notMem_of_leads ignored hl hr)] at hv
  exact Option.map_eq_some_iff.mp hv

theorem Part.of_without {members : List (String × Json)} {place : String} {kept : Json}
    (h : Leads pointer .definition)
    (hp : Part pointer (membersWithout reported pointer members) place kept) :
    ∃ value, Part pointer members place value ∧ value.without reported place = kept := by
  cases hp with
  | one hk hv =>
    obtain ⟨value, hw, rfl⟩ := get?_of_without ignored (h.one hk) (by decide) hv
    exact ⟨value, .one hk hw, rfl⟩
  | named hv hm =>
    obtain ⟨definitions, hw, heq⟩ := get?_of_without ignored h.attributes (by decide) hv
    cases definitions <;> cases heq
    obtain ⟨-, value, hm', rfl⟩ := mem_membersWithout.mp hm
    exact ⟨value, .named hw hm', rfl⟩
  | listed hv hi =>
    obtain ⟨definitions, hw, heq⟩ := get?_of_without ignored h.members (by decide) hv
    cases definitions <;> cases heq
    rw [getElem?_itemsWithout, Nat.zero_add] at hi
    obtain ⟨value, hi', rfl⟩ := Option.map_eq_some_iff.mp hi
    exact ⟨value, .listed hw hi', rfl⟩

/-- What is found after taking members away was found before, at a pointer that stayed. -/
theorem keywordFindings_without {f : Finding} (d : Json) (h : Leads pointer .definition)
    (hf : f ∈ keywordFindings pointer (d.without reported pointer)) :
    f ∈ keywordFindings pointer d ∧ f.pointer ∉ reported := by
  induction d using Json.induct_below generalizing pointer with
  | step d ih =>
    cases d with
    | object members =>
      rw [mem_keywordFindings_object]
      rcases mem_keywordFindings_object.mp hf with hf | hf | ⟨place, kept, hp, hf⟩
      · obtain ⟨name, hm, hn, rfl⟩ := mem_unknownKeywords.mp hf
        obtain ⟨kept, hm⟩ := Entries.mem_names.mp hm
        obtain ⟨hr, value, hm, -⟩ := mem_membersWithout.mp hm
        refine ⟨.inl (mem_unknownKeywords.mpr ?_), hr⟩
        exact ⟨name, Entries.mem_names.mpr ⟨value, hm⟩, hn, rfl⟩
      · obtain ⟨fragments, hv, hf⟩ := mem_validatorFindings.mp hf
        obtain ⟨value, hw, heq⟩ := get?_of_without ignored h.validators (by decide) hv
        cases value <;> cases heq
        obtain ⟨name, hm, hn, rfl⟩ := mem_unknownModes.mp hf
        obtain ⟨kept, hm⟩ := Entries.mem_names.mp hm
        obtain ⟨hr, value, hm, -⟩ := mem_membersWithout.mp hm
        refine ⟨.inr (.inl (mem_validatorFindings.mpr ⟨_, hw, mem_unknownModes.mpr ?_⟩)), hr⟩
        exact ⟨name, Entries.mem_names.mpr ⟨value, hm⟩, hn, rfl⟩
      · obtain ⟨value, hw, rfl⟩ := Part.of_without ignored h hp
        obtain ⟨hf, hr⟩ := ih value hw.below (h.part hw) hf
        exact ⟨.inr (.inr ⟨place, value, hw, hf⟩), hr⟩
    | _ => cases hf

end Stripped

/-- A definition without the members that the linter warns about is decoded to the same schema, or
refused with the same error, whatever compiles the fragments; and there is nothing left to warn
about. -/
theorem decode_strip [FragmentCompiler] (d : Json) :
    Definition.decode (strip d) = Definition.decode d ∧ keywordFindings "" (strip d) = [] := by
  have ignored : ∀ place ∈ (keywordFindings "" d).map Finding.pointer, Leads place .ignored := by
    intro place hp
    obtain ⟨f, hf, rfl⟩ := List.mem_map.mp hp
    exact keywordFindings_ignored d .root hf
  refine ⟨decodeAt_without ignored d .root, List.eq_nil_iff_forall_not_mem.mpr fun f hf => ?_⟩
  obtain ⟨hf, hr⟩ := keywordFindings_without ignored d .root hf
  exact hr (List.mem_map_of_mem hf)

/-- An unknown keyword and an unknown mode go; a default and the name of an attribute stay. -/
example : strip (.object [("type", .string "map"), ("color", .null),
      ("default", .object [("color", .null)]), ("validate", .object [("create", .null)]),
      ("attributes", .object [("color", .object [("type", .string "any"), ("size", .null)])])]) =
    .object [("type", .string "map"), ("default", .object [("color", .null)]),
      ("validate", .object []),
      ("attributes", .object [("color", .object [("type", .string "any")])])] :=
  rfl

end Lint
end ItemShape
