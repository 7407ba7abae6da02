import ItemShape.Proofs.Entries
import ItemShape.Schema

/-!
# ItemShape.Proofs.Schema.Built

Schemas as trees, and the schemas that can be composed.

* `Schema.induct`: induction over schemas, with a hypothesis for every child.
* `Schema.Everywhere`: a condition on all nodes of a schema; it splits into the root and the
  children (`everywhere_iff`).
* `Schema.Built`: schemas made by the constructors and builders.
* `Built.wellFormed`: at every node of such a schema the children are ones that may stand there.
-/

namespace ItemShape

/-- The schemas directly below a kind. -/
def Kind.children {α : Type} : Kind α → List α
  | scalar _ => []
  | set elements | list elements => [elements]
  | record keys elements => [keys, elements]
  | anyOf members => members
  | map attributes | item attributes => attributes.map Prod.snd

/-- The attributes of a map or item. -/
def Kind.attributes? : Kind Schema → Option (List (String × Schema))
  | .map attributes | .item attributes => some attributes
  | _ => none

theorem Kind.mem_children {kind : Kind Schema} {attributes : List (String × Schema)}
    (hk : kind.attributes? = some attributes) {entry : String × Schema} (he : entry ∈ attributes) :
    entry.2 ∈ kind.children := by
  cases kind with
  | map _ => cases hk; exact List.mem_map_of_mem he
  | item _ => cases hk; exact List.mem_map_of_mem he
  | _ => cases hk

namespace Schema

def children (schema : Schema) : List Schema :=
  schema.kind.children

theorem induct {P : Schema → Prop}
    (node : ∀ props kind, (∀ child ∈ Kind.children kind, P child) → P (.mk props kind)) :
    ∀ schema, P schema := by
  intro schema
  refine Schema.rec (motive_1 := P) (motive_2 := fun kind => ∀ child ∈ kind.children, P child)
    (motive_3 := fun attributes => ∀ child ∈ attributes.map Prod.snd, P child)
    (motive_4 := fun members => ∀ child ∈ members, P child)
    (motive_5 := fun entry => P entry.2)
    node ?_ ?_ ?_ ?_ ?_ ?_ ?_ ?_ ?_ ?_ ?_ ?_ schema
  · intro kind child h; cases h
  · intro elements h child hc; cases List.mem_singleton.mp hc; exact h
  · intro elements h child hc; cases List.mem_singleton.mp hc; exact h
  · intro attributes h child hc; exact h child hc
  · intro keys elements hk he child hc
    simp only [Kind.children, List.mem_cons, List.not_mem_nil, or_false] at hc
    rcases hc with rfl | rfl
    · exact hk
    · exact he
  · intro members h child hc; exact h child hc
  · intro attributes h child hc; exact h child hc
  · intro child hc; cases hc
  · intro head tail hh ht child hc
    rcases List.mem_cons.mp hc with rfl | hc
    · exact hh
    · exact ht child hc
  · intro child hc; cases hc
  · intro head tail hh ht child hc
    rcases List.mem_cons.mp hc with rfl | hc
    · exact hh
    · exact ht child hc
  · intro name schema h; exact h

/-! ## Nodes -/

/-- The first schema is the second or stands somewhere below it. -/
inductive Within : Schema → Schema → Prop where
  | refl {schema : Schema} : Within schema schema
  | inside {node child schema : Schema} (hc : child ∈ schema.children) (h : Within node child) :
    Within node schema

/-- Every node of the schema satisfies the condition, the root included. -/
def Everywhere (P : Schema → Prop) (schema : Schema) : Prop :=
  ∀ node, Within node schema → P node

variable {P : Schema → Prop} {schema : Schema}

theorem everywhere_iff :
    schema.Everywhere P ↔ P schema ∧ ∀ child ∈ schema.children, child.Everywhere P := by
  constructor
  · intro h
    exact ⟨h schema .refl, fun child hc node hn => h node (.inside hc hn)⟩
  · rintro ⟨hp, hc⟩ node hn
    cases hn with
    | refl => exact hp
    | inside hm hn => exact hc _ hm node hn

theorem Everywhere.root (h : schema.Everywhere P) : P schema :=
  (everywhere_iff.mp h).1

theorem Everywhere.child {child : Schema} (h : schema.Everywhere P)
    (hc : child ∈ schema.children) : child.Everywhere P :=
  (everywhere_iff.mp h).2 child hc

/-! ## Composition -/

/-- What elements, keys and members must be. -/
structure IsElement (schema : Schema) : Prop where
  required : schema.props.required ≠ .never
  shown : schema.isHidden = false
  unrenamed : schema.props.savedAs = none
  undefaulted : schema.props.defaults.isEmpty = true
  unlinked : schema.props.links.isEmpty = true
  notItem : schema.isItem = false

/-- The children of the node may stand there. -/
def ChildrenFit (schema : Schema) : Prop :=
  match schema.kind with
  | .scalar _ => True
  | .set elements => elements.IsElement ∧ ∃ kind, elements.kind = .scalar kind
  | .list elements => elements.IsElement
  | .record keys elements =>
    keys.IsElement ∧ elements.IsElement ∧ keys.kind = .scalar .string
  | .anyOf members => members ≠ [] ∧ ∀ member ∈ members, member.IsElement
  | .map attributes | .item attributes =>
    Entries.Distinct attributes ∧ ∀ entry ∈ attributes, entry.2.isItem = false

def WellFormed (schema : Schema) : Prop :=
  schema.Everywhere ChildrenFit

theorem WellFormed.distinct {attributes : List (String × Schema)} (h : schema.WellFormed)
    (hk : schema.kind.attributes? = some attributes) : Entries.Distinct attributes := by
  obtain ⟨props, kind⟩ := schema
  have fit := h.root
  cases kind with
  | map _ => cases hk; exact fit.1
  | item _ => cases hk; exact fit.1
  | _ => cases hk

/-- Made by the constructors, with properties changed at will: every builder is `withProps`. -/
inductive Built : Schema → Prop where
  | scalar (kind : ScalarKind) : Built (.scalar kind)
  | set {elements schema : Schema} (he : Built elements) (h : set? elements = .ok schema) :
    Built schema
  | list {elements schema : Schema} (he : Built elements) (h : list? elements = .ok schema) :
    Built schema
  | map {attributes : List (String × Schema)} {schema : Schema}
    (ha : ∀ entry ∈ attributes, Built entry.2) (h : map? attributes = .ok schema) :
    Built schema
  | record {keys elements schema : Schema} (hk : Built keys) (he : Built elements)
    (h : record? keys elements = .ok schema) : Built schema
  | anyOf {members : List Schema} {schema : Schema} (hm : ∀ member ∈ members, Built member)
    (h : anyOf? members = .ok schema) : Built schema
  | item {attributes : List (String × Schema)} {schema : Schema}
    (ha : ∀ entry ∈ attributes, Built entry.2) (h : item? attributes = .ok schema) :
    Built schema
  | withProps {schema : Schema} (hs : Built schema) (change : Props → Props) :
    Built (schema.withProps change)

theorem checkElement_ok_iff {container : KindName} {element : Schema} :
    checkElement container element = .ok () ↔ element.IsElement := by
  constructor
  · intro h
    simp only [checkElement] at h
    split at h
    · cases h
    · rename_i hr
      split at h
      · cases h
      · rename_i hh
        split at h
        · cases h
        · rename_i hs
          split at h
          · cases h
          · rename_i hd
            split at h
            · cases h
            · rename_i hi
              simp only [Bool.or_eq_true, Bool.not_eq_true', not_or, Bool.not_eq_false] at hd
              exact ⟨hr, by simpa using hh, hs, hd.1, hd.2, by simpa using hi⟩
  · intro h
    simp [checkElement, h.required, h.shown, h.unrenamed, h.undefaulted, h.unlinked, h.notItem]

theorem checkElements_ok_iff {container : KindName} {elements : List Schema} :
    checkElements container elements = .ok () ↔ ∀ element ∈ elements, element.IsElement := by
  induction elements with
  | nil => simp [checkElements]
  | cons element rest ih =>
    have hfirst : checkElement container element = .ok () ↔ element.IsElement :=
      checkElement_ok_iff
    rw [List.forall_mem_cons, ← ih, ← hfirst, checkElements]
    cases checkElement container element <;> simp

/-! ## The constructors -/

theorem wellFormed_scalar (kind : ScalarKind) : (scalar kind).WellFormed :=
  everywhere_iff.mpr ⟨trivial, fun _ hc => by cases hc⟩

theorem wellFormed_set? {elements schema : Schema} (he : elements.WellFormed)
    (h : set? elements = .ok schema) : schema.WellFormed := by
  simp only [set?] at h
  split at h
  · cases h
  · rename_i hc
    split at h
    · rename_i kind hk
      cases h
      refine everywhere_iff.mpr ⟨⟨checkElement_ok_iff.mp hc, kind, hk⟩, fun child hm => ?_⟩
      cases List.mem_singleton.mp hm
      exact he
    · cases h

theorem wellFormed_list? {elements schema : Schema} (he : elements.WellFormed)
    (h : list? elements = .ok schema) : schema.WellFormed := by
  simp only [list?] at h
  split at h
  · cases h
  · rename_i hc
    cases h
    refine everywhere_iff.mpr ⟨checkElement_ok_iff.mp hc, fun child hm => ?_⟩
    cases List.mem_singleton.mp hm
    exact he

theorem wellFormed_record? {keys elements schema : Schema} (hk : keys.WellFormed)
    (he : elements.WellFormed) (h : record? keys elements = .ok schema) : schema.WellFormed := by
  simp only [record?] at h
  split at h
  · cases h
  · rename_i hc
    have hc := checkElements_ok_iff.mp hc
    split at h
    · rename_i hs
      cases h
      refine everywhere_iff.mpr ⟨⟨hc keys (by simp), hc elements (by simp), hs⟩, fun child hm => ?_⟩
      simp only [children, ofKind, Schema.kind, Kind.children, List.mem_cons, List.not_mem_nil,
        or_false] at hm
      rcases hm with rfl | rfl
      · exact hk
      · exact he
    · cases h

theorem wellFormed_anyOf? {members : List Schema} {schema : Schema}
    (hm : ∀ member ∈ members, member.WellFormed) (h : anyOf? members = .ok schema) :
    schema.WellFormed := by
  simp only [anyOf?] at h
  split at h
  · cases h
  · rename_i hn
    split at h
    · cases h
    · rename_i hc
      cases h
      exact everywhere_iff.mpr ⟨⟨by simpa using hn, checkElements_ok_iff.mp hc⟩, hm⟩

/-- The attributes of a map or item, collected from pairs that hold no item. -/
theorem collected_fit {attributes : List (String × Schema)}
    (ha : ∀ entry ∈ attributes, WellFormed entry.2)
    (hi : attributes.any (fun entry => entry.2.isItem) = false) :
    (Entries.Distinct (Entries.ofList attributes) ∧
        ∀ entry ∈ Entries.ofList attributes, entry.2.isItem = false) ∧
      ∀ child ∈ (Entries.ofList attributes).map Prod.snd, child.WellFormed := by
  rw [List.any_eq_false] at hi
  refine ⟨⟨Entries.distinct_ofList attributes, fun entry he => ?_⟩, fun child hc => ?_⟩
  · simpa using hi entry (Entries.mem_ofList he)
  · obtain ⟨entry, he, rfl⟩ := List.mem_map.mp hc
    exact ha entry (Entries.mem_ofList he)

theorem wellFormed_map? {attributes : List (String × Schema)} {schema : Schema}
    (ha : ∀ entry ∈ attributes, WellFormed entry.2) (h : map? attributes = .ok schema) :
    schema.WellFormed := by
  simp only [map?] at h
  split at h
  · cases h
  · rename_i hi
    cases h
    exact everywhere_iff.mpr (collected_fit ha (by simpa using hi))

theorem wellFormed_item? {attributes : List (String × Schema)} {schema : Schema}
    (ha : ∀ entry ∈ attributes, WellFormed entry.2) (h : item? attributes = .ok schema) :
    schema.WellFormed := by
  simp only [item?] at h
  split at h
  · cases h
  · rename_i hi
    cases h
    exact everywhere_iff.mpr (collected_fit ha (by simpa using hi))

/-- Properties do not count for the node itself, only for what it may stand in. -/
theorem wellFormed_withProps {schema : Schema} (h : schema.WellFormed) (change : Props → Props) :
    (schema.withProps change).WellFormed := by
  rw [WellFormed, everywhere_iff] at h ⊢
  exact h

theorem Built.wellFormed {schema : Schema} (h : schema.Built) : schema.WellFormed := by
  induction h with
  | scalar kind => exact wellFormed_scalar kind
  | set _ h ih => exact wellFormed_set? ih h
  | list _ h ih => exact wellFormed_list? ih h
  | map _ h ih => exact wellFormed_map? ih h
  | record _ _ h ihk ihe => exact wellFormed_record? ihk ihe h
  | anyOf _ h ih => exact wellFormed_anyOf? ih h
  | item _ h ih => exact wellFormed_item? ih h
  | withProps _ change ih => exact wellFormed_withProps ih change

end Schema
end ItemShape
