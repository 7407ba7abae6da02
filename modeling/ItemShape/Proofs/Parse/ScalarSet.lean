import ItemShape.Proofs.Parse.Conforms
import ItemShape.Proofs.Parse.Protocol
import ItemShape.Proofs.Parse.Store

/-!
# ItemShape.Proofs.Parse.ScalarSet

Sets of scalars. Their trees are given by the members and the transformer of the elements
(`Filled.ofScalars`), and nothing can go wrong when they are stored.

* `fillNode_scalars_ok`: the trees a set is filled with.
* `fillNode_unique`: members of the type that the checks allow fill a set if no two are the same.
* `fillNode_duplicates`, `parse_duplicates`: duplicates are refused before any member is looked at.
-/

namespace ItemShape

namespace Filled

/-- The tree of a set of these members. -/
def ofScalars (transformer : Option Transformer) (members : List Value) : Filled :=
  .set (members.map (.scalar transformer))

theorem value?_ofScalars (transformer : Option Transformer) (members : List Value) :
    (ofScalars transformer members).value? = some (.list members) := by
  rw [ofScalars, value?, itemValues_eq_filterMap, List.filterMap_map]
  have each : (value? ∘ Filled.scalar transformer) = some := rfl
  rw [each, List.filterMap_some]

theorem storeMembers_scalars (path : ValuePath) (transformer : Option Transformer)
    (members : List Value) : storeMembers path (members.map (.scalar transformer)) =
      .ok (members.map (encodeWith transformer)) := by
  induction members with
  | nil => rfl
  | cons member rest ih => exact storeMembers_cons_ok_iff.mpr ⟨_, _, rfl, ih, rfl⟩

theorem store_ofScalars (path : ValuePath) (transformer : Option Transformer)
    (members : List Value) : (ofScalars transformer members).store path =
      .ok (some (.list (members.map (encodeWith transformer)))) := by
  rw [ofScalars, store_set, storeMembers_scalars]
  rfl

/-- What a parse makes of the tree: the encoded members if they are to be stored. -/
theorem parsed_ofScalars (path : ValuePath) (transform : Bool) (transformer : Option Transformer)
    (members : List Value) :
    (if transform then (ofScalars transformer members).store path
      else .ok (ofScalars transformer members).value?) =
        .ok (some (.list (if transform then members.map (encodeWith transformer) else members))) := by
  rw [store_ofScalars, value?_ofScalars]
  cases transform <;> rfl

end Filled

variable {elements : Schema} {kind : ScalarKind} {settings : Settings} {scope : Option LinkContext}

section Scalars

variable (he : elements.kind = .scalar kind)

include he

theorem fillNode_scalar_ok {v : Value} {filled : Filled}
    (h : fillNode elements none settings scope (some v) = .ok filled) :
    scalarMatches kind v = true ∧ filled = .scalar elements.transformer? v := by
  obtain ⟨props, _⟩ := elements
  cases he
  exact fillKind_scalar_ok_iff.mp (fillNode_some_ok_iff.mp h).1

theorem eq_scalars_of_forall₂ {members : List Value} {fs : List Filled}
    (h : List.Forall₂ (fun member f =>
      fillNode elements none settings scope (some member) = .ok f) members fs) :
    fs = members.map (.scalar elements.transformer?) ∧
      ∀ member ∈ members, scalarMatches kind member = true := by
  induction h with
  | nil => exact ⟨rfl, List.forall_mem_nil _⟩
  | cons hf _ ih =>
    obtain ⟨hm, rfl⟩ := fillNode_scalar_ok he hf
    obtain ⟨rfl, hrest⟩ := ih
    exact ⟨rfl, List.forall_mem_cons.mpr ⟨hm, hrest⟩⟩

/-- A set that is filled without an extension has members of the type, no two the same. -/
theorem fillNode_scalars_ok {props : Props} {input : Option Value} {filled : Filled}
    (h : fillNode (.mk props (.set elements)) none settings scope input = .ok filled) :
    (resolved props settings scope input = none ∧ filled = .absent) ∨
      ∃ members, resolved props settings scope input = some (.list members) ∧
        filled = .ofScalars elements.transformer? members ∧
          Value.hasDuplicates members = false ∧
            ∀ member ∈ members, scalarMatches kind member = true := by
  cases hr : resolved props settings scope input with
  | none => exact .inl ⟨rfl, ((fillNode_absent_ok_iff rfl hr).mp h).2⟩
  | some v =>
    obtain ⟨hk, -⟩ := (fillNode_present_ok_iff rfl hr).mp h
    obtain ⟨members, fs, rfl, rfl, hd, hfs⟩ := fillKind_set_ok hk
    obtain ⟨rfl, hm⟩ := eq_scalars_of_forall₂ he hfs
    exact .inr ⟨members, rfl, rfl, hd, hm⟩

theorem fillMembers_scalars {members : List Value}
    (hm : ∀ member ∈ members, scalarMatches kind member = true)
    (allowed : ∀ member ∈ members, elements.props.Allow settings.mode member) :
    fillMembers (fun member => fillNode elements none settings scope member) members =
      .ok (members.map (.scalar elements.transformer?)) := by
  obtain ⟨props, _⟩ := elements
  cases he
  induction members with
  | nil => rfl
  | cons member rest ih =>
    rw [List.forall_mem_cons] at hm allowed
    have filled : fillNode (.mk props (.scalar kind)) none settings scope (some member) =
        .ok (.scalar props.transformer member) :=
      fillNode_some_ok_iff.mpr
        ⟨fillKind_scalar_ok_iff.mpr ⟨hm.1, rfl⟩, (checkFilled_ok_iff rfl).mpr allowed.1⟩
    exact fillMembers_cons_ok_iff.mpr ⟨_, _, filled, ih hm.2 allowed.2, rfl⟩

end Scalars

section Allowed

variable {schema : Schema} {extension : Option Extension} {members : List Value}
  (hk : schema.kind = .set elements)
  (hx : Extension.consult extension schema settings (some (.list members)) =
    .unextended (some (.list members)))

include hk hx

theorem fillNode_duplicates (hd : Value.hasDuplicates members = true) :
    fillNode schema extension settings scope (some (.list members)) =
      .error (.mismatch settings.path "set of unique members" "duplicate members") := by
  obtain ⟨props, _⟩ := schema
  cases hk
  rw [fillNode_unextended hx]
  simp only [resolved, fillKind_set_eq, hd, if_true]

theorem fillNode_unique (he : elements.kind = .scalar kind)
    (hm : ∀ member ∈ members, scalarMatches kind member = true)
    (each : ∀ member ∈ members, elements.props.Allow settings.mode member)
    (whole : schema.props.Allow settings.mode (.list members))
    (hd : Value.hasDuplicates members = false) :
    fillNode schema extension settings scope (some (.list members)) =
      .ok (.ofScalars elements.transformer? members) := by
  obtain ⟨props, _⟩ := schema
  cases hk
  refine (fillNode_present_ok_iff hx rfl).mpr
    ⟨?_, (checkFilled_ok_iff (Filled.value?_ofScalars _ _)).mpr whole⟩
  rw [fillKind_set_eq, hd, if_neg Bool.false_ne_true, fillMembers_scalars he hm each]
  rfl

end Allowed

theorem parse_duplicates {schema : Schema} {options : ParseOptions} {members : List Value}
    (hk : schema.kind = .set elements)
    (hx : Extension.consult options.extension schema options.toSettings (some (.list members)) =
      .unextended (some (.list members))) (hd : Value.hasDuplicates members = true) :
    schema.parse options (some (.list members)) =
      .error (.mismatch options.path "set of unique members" "duplicate members") := by
  rw [parse_eq, fillNode_duplicates hk hx hd]
  rfl

end ItemShape
