import ItemShape.Proofs.Schema.Built

/-!
# ItemShape.Proofs.Format.Level

Two values of one schema, compared place by place. `Schema.Level` finds the maps that stand at one
place in both, with the attributes that are declared there; what holds of all such maps
(`Schema.AtEveryLevel`) holds of those at the root and of those below, kind by kind.
-/

namespace ItemShape
namespace Schema

/-- The entries of two values at one place, where the schema declares attributes. A place is in both
values or it is none. Sets have no places inside, as their members are scalars. Nor have unions,
where a value does not tell which member it belongs to. -/
inductive Level : Schema → Value → Value → List (String × Schema) → List (String × Value) →
    List (String × Value) → Prop where
  | here {props : Props} {kind : Kind Schema} {attributes : List (String × Schema)}
    {entries others : List (String × Value)} (declares : kind.attributes? = some attributes) :
    Level (.mk props kind) (.map entries) (.map others) attributes entries others
  | member {props : Props} {kind : Kind Schema} {attributes inner : List (String × Schema)}
    {entries others below below' : List (String × Value)} {name : String} {schema : Schema}
    {v w : Value} (declares : kind.attributes? = some attributes)
    (hm : (name, schema) ∈ attributes) (hv : Entries.get? name entries = some v)
    (hw : Entries.get? name others = some w) (h : Level schema v w inner below below') :
    Level (.mk props kind) (.map entries) (.map others) inner below below'
  | element {props : Props} {keys elements : Schema} {inner : List (String × Schema)}
    {entries others below below' : List (String × Value)} {key : String} {v w : Value}
    (hv : Entries.get? key entries = some v) (hw : Entries.get? key others = some w)
    (h : Level elements v w inner below below') :
    Level (.mk props (.record keys elements)) (.map entries) (.map others) inner below below'
  | item {props : Props} {elements : Schema} {inner : List (String × Schema)}
    {items others : List Value} {below below' : List (String × Value)} {position : Nat}
    {v w : Value} (hv : items[position]? = some v) (hw : others[position]? = some w)
    (h : Level elements v w inner below below') :
    Level (.mk props (.list elements)) (.list items) (.list others) inner below below'

/-- Two equal values have equal entries at every place. -/
theorem Level.entries_eq {schema : Schema} {v w : Value} {attributes : List (String × Schema)}
    {entries others : List (String × Value)} (h : schema.Level v w attributes entries others)
    (he : v = w) : entries = others := by
  induction h with
  | here _ => exact Value.map.inj he
  | member _ _ hv hw _ ih =>
    cases he
    exact ih (Option.some.inj (hv.symm.trans hw))
  | element hv hw _ ih =>
    cases he
    exact ih (Option.some.inj (hv.symm.trans hw))
  | item hv hw _ ih =>
    cases he
    exact ih (Option.some.inj (hv.symm.trans hw))

/-- What is said of declared attributes and two lists of entries holds at every place. -/
def AtEveryLevel (P : List (String × Schema) → List (String × Value) → List (String × Value) → Prop)
    (schema : Schema) (v w : Value) : Prop :=
  ∀ attributes entries others, schema.Level v w attributes entries others →
    P attributes entries others

section Kinds

variable {P : List (String × Schema) → List (String × Value) → List (String × Value) → Prop}
  {props : Props}

theorem atEveryLevel_scalar (kind : ScalarKind) (v w : Value) :
    (Schema.mk props (.scalar kind)).AtEveryLevel P v w := by
  intro attributes entries others h
  cases h with
  | here declares => cases declares
  | member declares => cases declares

theorem atEveryLevel_set (elements : Schema) (v w : Value) :
    (Schema.mk props (.set elements)).AtEveryLevel P v w := by
  intro attributes entries others h
  cases h with
  | here declares => cases declares
  | member declares => cases declares

theorem atEveryLevel_list_iff {elements : Schema} {items others : List Value} :
    (Schema.mk props (.list elements)).AtEveryLevel P (.list items) (.list others) ↔
      ∀ (position : Nat) (v w : Value), items[position]? = some v →
        others[position]? = some w → elements.AtEveryLevel P v w := by
  constructor
  · intro h position v w hv hw inner below below' hl
    exact h inner below below' (.item hv hw hl)
  · intro h attributes entries below hl
    cases hl with
    | item hv hw hl => exact h _ _ _ hv hw _ _ _ hl

theorem atEveryLevel_record_iff {keys elements : Schema} {entries others : List (String × Value)} :
    (Schema.mk props (.record keys elements)).AtEveryLevel P (.map entries) (.map others) ↔
      ∀ key v w, Entries.get? key entries = some v → Entries.get? key others = some w →
        elements.AtEveryLevel P v w := by
  constructor
  · intro h key v w hv hw inner below below' hl
    exact h inner below below' (.element hv hw hl)
  · intro h inner below below' hl
    cases hl with
    | here declares => cases declares
    | member declares => cases declares
    | element hv hw hl => exact h _ _ _ hv hw _ _ _ hl

theorem atEveryLevel_attributes_iff {kind : Kind Schema} {attributes : List (String × Schema)}
    (hk : kind.attributes? = some attributes) {entries others : List (String × Value)} :
    (Schema.mk props kind).AtEveryLevel P (.map entries) (.map others) ↔
      P attributes entries others ∧
        ∀ name child v w, (name, child) ∈ attributes → Entries.get? name entries = some v →
          Entries.get? name others = some w → child.AtEveryLevel P v w := by
  constructor
  · intro h
    refine ⟨h _ _ _ (.here hk), fun name child v w hm hv hw inner below below' hl => ?_⟩
    exact h inner below below' (.member hk hm hv hw hl)
  · rintro ⟨root, each⟩ inner below below' hl
    cases hl with
    | here declares =>
      cases hk.symm.trans declares
      exact root
    | member declares hm hv hw hl =>
      cases hk.symm.trans declares
      exact each _ _ _ _ hm hv hw _ _ _ hl
    | element => cases hk

end Kinds

end Schema
end ItemShape
