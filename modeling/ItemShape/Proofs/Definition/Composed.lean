import ItemShape.Proofs.Definition.Parts
import ItemShape.Proofs.Schema.Built

/-!
# ItemShape.Proofs.Definition.Composed

Schemas that can be composed, in code or by a definition, and what holds at every depth of them
(`composition_rules`).

* `Definition.decodeAt_built`: a definition is decoded by constructors and builders. Its properties
  do not change the kind of its schema (`decodeProps_kind`), and its children are decoded before.
* `Schema.compose?`: the constructor of a kind. It succeeds for the children that may stand there
  (`Kind.Composable`), and only for them (`exists_compose?_iff`).
-/

namespace ItemShape
namespace Definition

variable {pointer : String} {members : List (String × Json)} {schema other : Schema}

/-! ## Properties -/

theorem decodeRequired_kind (h : decodeRequired pointer members schema = .ok other) :
    other.kind = schema.kind := by
  simp only [decodeRequired] at h
  split at h
  · cases h
    rfl
  · split at h
    · cases h
      rfl
    · cases h
  · cases h

theorem decodeKey_kind (h : decodeKey pointer members schema = .ok other) :
    other.kind = schema.kind := by
  simp only [decodeKey] at h
  split at h
  · cases h
  · rename_i isKey _
    cases h
    cases isKey <;> rfl

theorem decodeHidden_kind (h : decodeHidden pointer members schema = .ok other) :
    other.kind = schema.kind := by
  simp only [decodeHidden] at h
  split at h
  · cases h
  · rename_i isHidden _
    cases h
    cases isHidden <;> rfl

theorem decodeSavedAs_kind (h : decodeSavedAs pointer members schema = .ok other) :
    other.kind = schema.kind := by
  simp only [decodeSavedAs] at h
  split at h
  · cases h
    rfl
  · split at h
    · cases h
    · cases h
      rfl
  · cases h

theorem decodeEnumerated_kind (h : decodeEnumerated pointer members schema = .ok other) :
    other.kind = schema.kind := by
  simp only [decodeEnumerated] at h
  split at h
  · cases h
    rfl
  · cases h
    rfl
  · cases h

theorem decodeDefault_kind (members : List (String × Json)) (schema : Schema) :
    (decodeDefault members schema).kind = schema.kind := by
  have fold (defaults : List (Mode × Json)) : ∀ schema : Schema,
      (defaults.foldl (fun schema entry => schema.defaultIn entry.1 (.value (.ofJson entry.2)))
        schema).kind = schema.kind := by
    induction defaults with
    | nil => intro schema; rfl
    | cons entry rest ih => intro schema; exact ih _
  rw [decodeDefault]
  split
  · rfl
  · split
    · exact fold _ schema
    · rfl

theorem decodeValidators_kind [FragmentCompiler] {fragments : List (String × Json)}
    (h : decodeValidators pointer schema fragments = .ok other) : other.kind = schema.kind := by
  induction fragments generalizing schema with
  | nil =>
    cases h
    rfl
  | cons entry rest ih =>
    rw [decodeValidators] at h
    split at h
    · exact ih h
    · split at h
      · cases h
      · rename_i mode _ _ validator _
        have hkind : other.kind = (schema.validateIn mode validator).kind := ih h
        exact hkind

theorem decodeValidate_kind [FragmentCompiler]
    (h : decodeValidate pointer members schema = .ok other) : other.kind = schema.kind := by
  simp only [decodeValidate] at h
  split at h
  · cases h
    rfl
  · exact decodeValidators_kind h
  · cases h

theorem decodeTransform_kind (h : decodeTransform pointer members schema = .ok other) :
    other.kind = schema.kind := by
  simp only [decodeTransform] at h
  split at h
  · cases h
    rfl
  · split at h
    · cases h
    · cases h
      rfl

/-- Properties are put on the schema of a kind and leave the kind as it is. -/
theorem decodeProps_kind [FragmentCompiler] (h : decodeProps pointer members schema = .ok other) :
    other.kind = schema.kind := by
  simp only [decodeProps] at h
  split at h
  · cases h
  · rename_i required hr
    split at h
    · cases h
    · rename_i key hk
      split at h
      · cases h
      · rename_i hidden hh
        split at h
        · cases h
        · rename_i savedAs hs
          split at h
          · cases h
          · rename_i enumerated he
            split at h
            · cases h
            · rename_i validated hv
              calc other.kind = validated.kind := decodeTransform_kind h
                _ = (decodeDefault members enumerated).kind := decodeValidate_kind hv
                _ = enumerated.kind := decodeDefault_kind members enumerated
                _ = savedAs.kind := decodeEnumerated_kind he
                _ = hidden.kind := decodeSavedAs_kind hs
                _ = key.kind := decodeHidden_kind hh
                _ = required.kind := decodeKey_kind hk
                _ = schema.kind := decodeRequired_kind hr

/-! ## Definitions -/

theorem composed_ok {outcome : Except ConstructionError Schema}
    (h : composed pointer outcome = .ok schema) : outcome = .ok schema := by
  cases outcome with
  | ok _ =>
    cases h
    rfl
  | error e => cases h

section Children

variable [FragmentCompiler] {P : Schema → Prop}

theorem decodeNamed_forall {definitions : List (String × Json)}
    (each : ∀ entry ∈ definitions, ∀ place schema, decodeAt place entry.2 = .ok schema → P schema)
    {attributes : List (String × Schema)} (h : decodeNamed pointer definitions = .ok attributes) :
    ∀ entry ∈ attributes, P entry.2 := by
  induction definitions generalizing attributes with
  | nil =>
    cases h
    exact List.forall_mem_nil _
  | cons entry rest ih =>
    rw [List.forall_mem_cons] at each
    rw [decodeNamed] at h
    split at h
    · cases h
    · rename_i schema hs
      split at h
      · cases h
      · rename_i others ho
        cases h
        exact List.forall_mem_cons.mpr ⟨each.1 _ schema hs, ih each.2 ho⟩

theorem decodeListed_forall {definitions : List Json}
    (each : ∀ definition ∈ definitions, ∀ place schema,
      decodeAt place definition = .ok schema → P schema)
    {position : Nat} {schemas : List Schema}
    (h : decodeListed pointer position definitions = .ok schemas) :
    ∀ schema ∈ schemas, P schema := by
  induction definitions generalizing position schemas with
  | nil =>
    cases h
    exact List.forall_mem_nil _
  | cons definition rest ih =>
    rw [List.forall_mem_cons] at each
    rw [decodeListed] at h
    split at h
    · cases h
    · rename_i schema hs
      split at h
      · cases h
      · rename_i others ho
        cases h
        exact List.forall_mem_cons.mpr ⟨each.1 _ schema hs, ih each.2 ho⟩

end Children

theorem exists_of_elim_ok {α β ε : Type} {found : Option α} {e : ε} {read : α → Except ε β} {b : β}
    (h : found.elim (.error e) read = .ok b) : ∃ a, found = some a ∧ read a = .ok b := by
  cases found with
  | none => cases h
  | some a => exact ⟨a, rfl, h⟩

/-- The schema of a kind is built if the schemas of everything inside the definition are. -/
theorem decodeKind_built [FragmentCompiler]
    (each : ∀ inner, inner.Below (.object members) →
      ∀ place schema, decodeAt place inner = .ok schema → schema.Built) {kind : KindName}
    (h : decodeKind pointer (decodeParts pointer members) kind = .ok schema) : schema.Built := by
  have under {keyword : String} {value : Json} (hv : Entries.get? keyword members = some value) :
      ∀ place schema, decodeAt place value = .ok schema → schema.Built :=
    each value (.child (Json.mem_children_of_get? hv))
  have elements {elements : Schema}
      (he : neededPart pointer "elements" (decodeParts pointer members) = .ok elements) :
      elements.Built := by
    rw [neededPart_decodeParts (.inl rfl)] at he
    obtain ⟨value, hv, he⟩ := exists_of_elim_ok he
    exact under hv _ elements he
  have attributes {attributes : List (String × Schema)}
      (ha : attributesPart pointer (decodeParts pointer members) = .ok attributes) :
      ∀ entry ∈ attributes, entry.2.Built := by
    rw [attributesPart_decodeParts] at ha
    obtain ⟨definitions, hd, ha⟩ := exists_of_elim_ok ha
    obtain ⟨value, hv, hm⟩ := Option.bind_eq_some_iff.mp hd
    refine decodeNamed_forall (fun entry he => each entry.2 ?_) ha
    exact .inside (.child (Json.mem_children_of_members? hm he)) (Json.mem_children_of_get? hv)
  cases kind with
  | scalar kind =>
    cases h
    exact .scalar kind
  | set =>
    simp only [decodeKind] at h
    split at h
    · cases h
    · rename_i he
      exact .set (elements he) (composed_ok h)
  | list =>
    simp only [decodeKind] at h
    split at h
    · cases h
    · rename_i he
      exact .list (elements he) (composed_ok h)
  | record =>
    simp only [decodeKind] at h
    split at h
    · cases h
    · rename_i keys hk
      split at h
      · cases h
      · rename_i he
        refine .record ?_ (elements he) (composed_ok h)
        rw [keysPart_decodeParts] at hk
        cases hv : Entries.get? "keys" members with
        | none =>
          rw [hv] at hk
          cases hk
          exact .scalar .string
        | some value =>
          rw [hv] at hk
          exact under hv _ keys hk
  | map =>
    simp only [decodeKind] at h
    split at h
    · cases h
    · rename_i ha
      exact .map (attributes ha) (composed_ok h)
  | item =>
    simp only [decodeKind] at h
    split at h
    · cases h
    · rename_i ha
      exact .item (attributes ha) (composed_ok h)
  | anyOf =>
    simp only [decodeKind] at h
    split at h
    · cases h
    · rename_i schemas hs
      rw [membersPart_decodeParts] at hs
      obtain ⟨definitions, hd, hs⟩ := exists_of_elim_ok hs
      obtain ⟨value, hv, hm⟩ := Option.bind_eq_some_iff.mp hd
      refine .anyOf (decodeListed_forall (fun definition hi => each definition ?_) hs)
        (composed_ok h)
      exact .inside (.child (Json.mem_children_of_items? hm hi)) (Json.mem_children_of_get? hv)

/-- What a definition decodes to is composed by the constructors and builders. -/
theorem decodeAt_built [FragmentCompiler] (definition : Json) : ∀ pointer schema,
    decodeAt pointer definition = .ok schema → schema.Built := by
  induction definition using Json.induct_below with
  | step j ih =>
    intro pointer schema h
    cases j with
    | object members =>
      rw [decodeAt] at h
      simp only [decodeObject] at h
      split at h
      · cases h
      · split at h
        · cases h
        · split at h
          · cases h
          · rename_i composed hc
            have hkind := decodeProps_kind h
            have hset : schema = composed.withProps fun _ => schema.props := by
              rw [Schema.withProps, ← hkind]
              cases schema
              rfl
            rw [hset]
            exact (decodeKind_built ih hc).withProps _
      · cases h
    | _ => cases h

end Definition

/-! ## Rules of composition -/

theorem PerMode.isEmpty_iff {α : Type} {values : PerMode α} :
    values.isEmpty = true ↔ ∀ mode, values.get? mode = none := by
  constructor
  · intro h mode
    simp only [isEmpty, Bool.and_eq_true, Option.isNone_iff_eq_none] at h
    cases mode with
    | key => exact h.1.1
    | put => exact h.1.2
    | update => exact h.2
  · intro h
    have hkey := h .key
    have hput := h .put
    have hupdate := h .update
    simp only [get?] at hkey hput hupdate
    simp [isEmpty, hkey, hput, hupdate]

/-- What stands as an element, as a key or as a member of a union. -/
structure Schema.Embeddable (schema : Schema) : Prop where
  required : schema.props.required ≠ .never
  shown : schema.isHidden = false
  unrenamed : schema.props.savedAs = none
  undefaulted : ∀ mode, schema.default? mode = none
  unlinked : ∀ mode, schema.link? mode = none
  notItem : schema.isItem = false

/-- The children given to a constructor may stand there. -/
def Kind.Composable : Kind Schema → Prop
  | .scalar _ => True
  | .set elements => elements.Embeddable ∧ ∃ kind, elements.kind = .scalar kind
  | .list elements => elements.Embeddable
  | .record keys elements =>
    keys.Embeddable ∧ elements.Embeddable ∧ keys.kind = .scalar .string
  | .anyOf members => members ≠ [] ∧ ∀ member ∈ members, member.Embeddable
  | .map attributes | .item attributes => ∀ entry ∈ attributes, entry.2.isItem = false

namespace Schema

theorem isElement_iff_embeddable {schema : Schema} : schema.IsElement ↔ schema.Embeddable := by
  constructor
  · intro h
    exact ⟨h.required, h.shown, h.unrenamed, PerMode.isEmpty_iff.mp h.undefaulted,
      PerMode.isEmpty_iff.mp h.unlinked, h.notItem⟩
  · intro h
    exact ⟨h.required, h.shown, h.unrenamed, PerMode.isEmpty_iff.mpr h.undefaulted,
      PerMode.isEmpty_iff.mpr h.unlinked, h.notItem⟩

/-- At every depth the children may stand where they stand, and only the root may be an item. -/
structure WellComposed (schema : Schema) : Prop where
  composable : schema.Everywhere fun node => node.kind.Composable
  itemsAtRoot : ∀ child ∈ schema.children, child.Everywhere fun node => node.isItem = false

theorem ChildrenFit.composable {schema : Schema} (h : schema.ChildrenFit) :
    schema.kind.Composable := by
  obtain ⟨props, kind⟩ := schema
  cases kind with
  | scalar kind => trivial
  | set elements => exact h.imp_left isElement_iff_embeddable.mp
  | list elements => exact isElement_iff_embeddable.mp h
  | record keys elements =>
    obtain ⟨hk, he, hs⟩ := h
    exact ⟨isElement_iff_embeddable.mp hk, isElement_iff_embeddable.mp he, hs⟩
  | anyOf members =>
    exact ⟨h.1, fun member hm => isElement_iff_embeddable.mp (h.2 member hm)⟩
  | map attributes => exact h.2
  | item attributes => exact h.2

end Schema

theorem Kind.Composable.not_item {kind : Kind Schema} (h : kind.Composable) :
    ∀ child ∈ kind.children, child.isItem = false := by
  intro child hc
  cases kind with
  | scalar kind => cases hc
  | set elements =>
    cases List.mem_singleton.mp hc
    exact h.1.notItem
  | list elements =>
    cases List.mem_singleton.mp hc
    exact h.notItem
  | record keys elements =>
    obtain ⟨hk, he, -⟩ := h
    simp only [Kind.children, List.mem_cons, List.not_mem_nil, or_false] at hc
    rcases hc with rfl | rfl
    · exact hk.notItem
    · exact he.notItem
  | anyOf members => exact (h.2 child hc).notItem
  | map attributes | item attributes =>
    obtain ⟨entry, he, rfl⟩ := List.mem_map.mp hc
    exact h entry he

namespace Schema

theorem WellFormed.wellComposed {schema : Schema} (h : schema.WellFormed) :
    schema.WellComposed := by
  have composable : schema.Everywhere fun node => node.kind.Composable :=
    fun node hn => (h node hn).composable
  refine ⟨composable, fun child hc node hn => ?_⟩
  have hitem := composable.root.not_item child hc
  have below := composable.child hc
  clear hc
  induction hn with
  | refl => exact hitem
  | inside hm _ ih => exact ih (below.root.not_item _ hm) (below.child hm)

/-- The constructor of a kind, given the children of the kind. -/
def compose? : Kind Schema → Except ConstructionError Schema
  | .scalar kind => .ok (.scalar kind)
  | .set elements => set? elements
  | .list elements => list? elements
  | .map attributes => map? attributes
  | .record keys elements => record? keys elements
  | .anyOf members => anyOf? members
  | .item attributes => item? attributes

/-- A constructor refuses nothing but children that may not stand there. -/
theorem exists_compose?_iff {kind : Kind Schema} :
    (∃ schema, compose? kind = .ok schema) ↔ kind.Composable := by
  cases kind with
  | scalar kind => exact iff_of_true ⟨_, rfl⟩ trivial
  | set elements =>
    have hcheck : checkElement .set elements = .ok () ↔ elements.IsElement := checkElement_ok_iff
    simp only [compose?, set?, Kind.Composable, ← isElement_iff_embeddable, ← hcheck]
    cases checkElement .set elements with
    | error e => simp
    | ok _ => cases elements.kind <;> simp
  | list elements =>
    have hcheck : checkElement .list elements = .ok () ↔ elements.IsElement := checkElement_ok_iff
    simp only [compose?, list?, Kind.Composable, ← isElement_iff_embeddable, ← hcheck]
    cases checkElement .list elements <;> simp
  | record keys elements =>
    have hcheck : checkElements .record [keys, elements] = .ok () ↔
        keys.IsElement ∧ elements.IsElement := by
      rw [checkElements_ok_iff]
      simp
    simp only [compose?, record?, Kind.Composable, ← isElement_iff_embeddable, ← and_assoc,
      ← hcheck]
    cases checkElements .record [keys, elements] with
    | error e => simp
    | ok _ =>
      cases keys.kind with
      | scalar kind => cases kind <;> simp
      | _ => simp
  | anyOf members =>
    have hcheck : checkElements .anyOf members = .ok () ↔ ∀ member ∈ members, member.IsElement :=
      checkElements_ok_iff
    simp only [compose?, anyOf?, Kind.Composable, ← isElement_iff_embeddable, ← hcheck]
    cases members with
    | nil => simp
    | cons member rest => cases checkElements .anyOf (member :: rest) <;> simp
  | map attributes | item attributes =>
    have hany : attributes.any (fun entry => entry.2.isItem) = true ↔
        ¬ ∀ entry ∈ attributes, entry.2.isItem = false := by simp
    simp only [compose?, map?, item?, Kind.Composable]
    split
    · rename_i h
      exact iff_of_false (by simp) (hany.mp h)
    · rename_i h
      exact iff_of_true ⟨_, rfl⟩ (not_not.mp (mt hany.mpr h))

/-- Schemas made by constructors and builders in any order, and schemas decoded from definitions with
any compiler of fragments, follow the rules of composition at every depth; and a constructor fails
only where its own children break them. -/
theorem composition_rules :
    (∀ schema : Schema, schema.Built → schema.WellComposed) ∧
    (∀ [FragmentCompiler] (definition : Json) (schema : Schema),
      Definition.decode definition = .ok schema → schema.WellComposed) ∧
    ∀ kind : Kind Schema, (∃ schema, compose? kind = .ok schema) ↔ kind.Composable :=
  ⟨fun _ h => h.wellFormed.wellComposed,
    fun {_} definition schema h =>
      (Definition.decodeAt_built definition "" schema h).wellFormed.wellComposed,
    fun _ => exists_compose?_iff⟩

/-- A record of texts or sets of numbers, built and decoded, with a fragment that accepts everything;
a set of optional texts is refused. -/
theorem composition_rules_record_of_unions :
    let _ : FragmentCompiler := ⟨fun _ => .ok fun _ => none⟩
    let built := (Schema.ofKind (.record (.scalar .string)
      (.ofKind (.anyOf [.scalar .string, .ofKind (.set (.scalar .number))])))).validateIn .put
        fun _ => .valid
    let definition := Json.object [("type", .string "record"), ("elements", .object
      [("type", .string "anyOf"), ("members", .array [.object [("type", .string "string")],
        .object [("type", .string "set"), ("elements", .object [("type", .string "number")])]])]),
      ("validate", .object [("put", .bool true)])]
    built.WellComposed ∧ (Definition.decode definition = .ok built ∧ built.WellComposed) ∧
      ¬ ∃ schema, compose? (.set (Schema.scalar .string).makeOptional) = .ok schema := by
  intro _ built definition
  let members := [Schema.scalar .string, .ofKind (.set (.scalar .number))]
  have union : (Schema.ofKind (.anyOf members)).Built := by
    refine .anyOf (fun member hm => ?_) (rfl : anyOf? members = _)
    rcases List.mem_cons.mp hm with rfl | hm
    · exact .scalar .string
    · cases List.mem_singleton.mp hm
      exact .set (.scalar .number) rfl
  have decoded : Definition.decode definition = .ok built := rfl
  have record : built.Built := (Built.record (.scalar .string) union rfl).withProps _
  refine ⟨composition_rules.1 built record,
    ⟨decoded, composition_rules.2.1 definition built decoded⟩, ?_⟩
  rw [composition_rules.2.2]
  intro h
  exact h.1.required rfl

end Schema
end ItemShape
