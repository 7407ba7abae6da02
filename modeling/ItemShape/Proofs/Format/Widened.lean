import ItemShape.Proofs.Format.Restore
import ItemShape.Proofs.Format.Unseen
import ItemShape.Proofs.Parse.Widened

/-!
# ItemShape.Proofs.Format.Widened

Appending members to a union is backward compatible: what a schema accepts, as input or as a stored
value, it treats alike once it has been widened (`widened_backward_compatible`).

The parser's half is `Schema.Widened.covered`. Formatting carries `Covered` from the children to the
whole in the same way.
-/

namespace ItemShape

/-! ## Lists, sets and records -/

section Children

variable {f g : ValuePath → Value → Except SchemaError Value} {path : ValuePath}

theorem formatItems_covered (h : ∀ place item, Covered (f place item) (g place item))
    (position : Nat) (items : List Value) :
    Covered (formatItems f path position items) (formatItems g path position items) := by
  induction items generalizing position with
  | nil => exact .refl _
  | cons item rest ih =>
    rw [formatItems_cons, formatItems_cons]
    exact (h _ _).bind fun value => (ih (position + 1)).map _

theorem formatEntries_covered (keys : Option Transformer)
    (h : ∀ place element, Covered (f place element) (g place element))
    (done entries : List (String × Value)) :
    Covered (formatEntries keys f path done entries) (formatEntries keys g path done entries) := by
  induction entries generalizing done with
  | nil => exact .refl _
  | cons entry rest ih =>
    rw [formatEntries_cons, formatEntries_cons]
    exact (Covered.refl _).bind fun key => (h _ _).bind fun value => ih _

end Children

/-- The second schema formats whatever the first one does, to the same result. -/
structure Schema.FormatCovered (schema other : Schema) : Prop where
  props : other.props = schema.props
  format : ∀ path stored,
    ItemShape.Covered (formatNode schema path stored) (formatNode other path stored)

/-! ## Attributes and unions -/

theorem formatAttributes_cons (name : String) (schema : Schema) (rest : List (String × Schema))
    (path : ValuePath) (stored : List (String × Value)) :
    formatAttributes ((name, schema) :: rest) path stored =
      if schema.isHidden then formatAttributes rest path stored
      else (Entries.get? (schema.storedName name) stored).elim (formatAttributes rest path stored)
        fun held => (formatNode schema (path.member name) held).bind fun value =>
          (formatAttributes rest path stored).map fun others => (name, value) :: others := by
  rw [formatAttributes]
  cases Entries.get? (schema.storedName name) stored with
  | none => rfl
  | some held =>
    dsimp only [Option.elim]
    cases formatNode schema (path.member name) held with
    | error e => rfl
    | ok value =>
      dsimp only [Except.bind]
      cases formatAttributes rest path stored <;> rfl

theorem formatAttributes_covered {attributes others : List (String × Schema)}
    (h : List.Forall₂ (Attribute.Rel Schema.FormatCovered) attributes others) (path : ValuePath)
    (stored : List (String × Value)) :
    Covered (formatAttributes attributes path stored) (formatAttributes others path stored) := by
  induction h with
  | nil => exact .refl _
  | cons hfirst _ ih =>
    cases hfirst with
    | @mk name schema other h =>
      rw [formatAttributes_cons, formatAttributes_cons, Schema.isHidden, Schema.isHidden,
        Schema.storedName, Schema.storedName, h.props]
      cases schema.props.hidden with
      | true => exact ih
      | false =>
        cases Entries.get? (schema.props.savedAs.getD name) stored with
        | none => exact ih
        | some held => exact (h.format _ _).bind fun value => ih.map _

theorem formatFirst_append {members : List Schema} {path : ValuePath} {stored v : Value}
    (h : formatFirst members path stored = some v) (further : List Schema) :
    formatFirst (members ++ further) path stored = some v := by
  induction members with
  | nil => cases h
  | cons member rest ih =>
    rw [List.cons_append, formatFirst]
    rw [formatFirst] at h
    cases hf : formatNode member path stored with
    | ok first => rwa [hf] at h
    | error e =>
      rw [hf] at h
      exact ih h

/-! ## Schemas -/

section Kinds

variable {kind kind' : Kind Schema} {transformer : Option Transformer} {path : ValuePath}

theorem formatKind_anyOf_ok_iff {members : List Schema} {stored v : Value} :
    formatKind (.anyOf members) transformer path stored = .ok v ↔
      formatFirst members path stored = some v := by
  rw [formatKind]
  cases formatFirst members path stored <;> simp

/-- Other kinds than unions are formatted wherever their children are. -/
theorem formatKind_covered (hu : kind.name ≠ .anyOf) (h : kind.Rel Schema.FormatCovered kind')
    (stored : Value) :
    Covered (formatKind kind transformer path stored)
      (formatKind kind' transformer path stored) := by
  have named {attributes others : List (String × Schema)} (hk : kind.attributes? = some attributes)
      (hk' : kind'.attributes? = some others)
      (ha : List.Forall₂ (Attribute.Rel Schema.FormatCovered) attributes others)
      (entries : List (String × Value)) :
      Covered (formatKind kind transformer path (.map entries))
        (formatKind kind' transformer path (.map entries)) := by
    rw [formatKind_attributes_eq hk, formatKind_attributes_eq hk']
    exact (formatAttributes_covered ha path entries).map _
  cases h with
  | scalar kind => exact .refl _
  | @set elements elements' h =>
    cases stored with
    | list members =>
      rw [formatKind_set_eq, formatKind_set_eq]
      exact (formatItems_covered (fun _ member => h.format path member) 0 members).map _
    | _ => exact .refl _
  | @list elements elements' h =>
    cases stored with
    | list items =>
      rw [formatKind_list_eq, formatKind_list_eq]
      exact (formatItems_covered h.format 0 items).map _
    | _ => exact .refl _
  | map h =>
    cases stored with
    | map entries => exact named rfl rfl h entries
    | _ => exact .refl _
  | @record keys elements keys' elements' hk he =>
    cases stored with
    | map entries =>
      rw [formatKind_record_eq, formatKind_record_eq, Schema.transformer?, Schema.transformer?,
        hk.props]
      exact (formatEntries_covered keys.props.transformer he.format [] entries).map _
    | _ => exact .refl _
  | anyOf h => exact absurd rfl hu
  | item h =>
    cases stored with
    | map entries => exact named rfl rfl h entries
    | _ => exact .refl _

end Kinds

/-- By induction on the schema: a wider schema formats whatever the narrower one does. -/
theorem Schema.Widened.formatCovered {schema other : Schema} (h : schema.Widened other) :
    schema.FormatCovered other := by
  induction schema using Schema.induct generalizing other with
  | node props kind ih =>
    cases h with
    | same => exact ⟨rfl, fun _ _ => .refl _⟩
    | appended _ members further =>
      refine ⟨rfl, fun path stored v hv => ?_⟩
      rw [formatNode, formatKind_anyOf_ok_iff] at hv ⊢
      exact formatFirst_append hv further
    | @inside _ _ kind' hu hk =>
      have children : kind.Rel Schema.FormatCovered kind' := hk.imp fun child hm _ h => ih child hm h
      refine ⟨rfl, fun path stored => ?_⟩
      rw [formatNode, formatNode]
      exact formatKind_covered hu children stored

/-- Members may be appended to a union that stands in no other union. An input that is accepted is
filled with the same tree as before, and so takes the same steps, whether the second one succeeds or
not; a stored value that is accepted is formatted as before. -/
theorem widened_backward_compatible {schema other : Schema} (h : schema.Widened other) :
    (∀ options : ParseOptions,
      options.extension = none ∨ options.extension = some Update.extension → ∀ input f,
        schema.FillsTo options input f →
          (∃ filled, fillNode schema options.extension options.toSettings none input = .ok filled ∧
            fillNode other options.extension options.toSettings none input = .ok filled) ∧
          (other.start options input).trace = (schema.start options input).trace) ∧
      ∀ stored v, schema.format stored = .ok v → other.format stored = .ok v := by
  refine ⟨fun options hx input f hf => ?_, fun stored v => h.formatCovered.format .root stored v⟩
  have answers : AnswersCovered options.extension := by
    rcases hx with hx | hx <;> rw [hx]
    · exact answersCovered_none
    · exact answersCovered_update
  obtain ⟨filled, hfill, rfl⟩ := Schema.fillsTo_iff.mp hf
  have hother := h.covered.fill _ answers options.toSettings none input filled hfill
  refine ⟨⟨filled, hfill, hother⟩, ?_⟩
  simp only [Schema.start, start, hfill, hother]

/-- A union in a list, of which the first member cannot store its value; the member appended to it
could, but is not tried. -/
theorem widened_backward_compatible_not_retried :
    let text := (Schema.scalar .string).savedAs "x"
    let clashing := Schema.ofKind (.map [("a", text), ("b", text)])
    let narrow := Schema.ofKind (.list (.ofKind (.anyOf [clashing])))
    let wide := Schema.ofKind (.list (.ofKind (.anyOf [clashing, .scalar .any])))
    let options := ParseOptions.ofMode .put
    let input := Value.list [.map [("a", .string "1"), ("b", .string "2")]]
    let stored := Value.list [.map [("x", .string "1")]]
    narrow.Widened wide ∧
      (wide.start options (some input)).trace = [(.ok (some input), false),
        (.error (.conflict (ValuePath.root.index 0) "x"), true)] ∧
      wide.format stored =
        .ok (.list [.map [("a", .string "1"), ("b", .string "1")]]) := by
  intro text clashing narrow wide options input stored
  have widened : narrow.Widened wide :=
    .inside _ (by simp [Kind.name]) (.list (.appended _ [clashing] [.scalar .any]))
  obtain ⟨parsed, formatted⟩ := widened_backward_compatible widened
  obtain ⟨-, steps⟩ := parsed options (.inl rfl) (some input) (some input) ⟨_, rfl⟩
  exact ⟨widened, steps.trans rfl, formatted stored _ rfl⟩

end ItemShape
