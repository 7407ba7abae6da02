import ItemShape.Format
import ItemShape.Proofs.Lists
import ItemShape.Proofs.Schema.Built

/-!
# ItemShape.Proofs.Format.Shown

What formatting may show of a value: the value without its hidden attributes (`Schema.shownPart`).
A union shows a value as its only member with values of that type does. Where nothing is hidden that
is the whole value (`Schema.shownPart_eq_self`).
-/

namespace ItemShape

/-- The type name of the values of a kind, where they all have the same. -/
def Kind.typeName? : Kind Schema → Option String
  | .scalar .any | .anyOf _ => none
  | .scalar kind => some kind.name
  | .set _ | .list _ => some "list"
  | .map _ | .record _ _ | .item _ => some "map"

mutual

/-- A value without its hidden attributes, at every depth. -/
def Schema.shownPart : Schema → Value → Value
  | .mk _ kind, v => kind.shownPart v

def Kind.shownPart : Kind Schema → Value → Value
  | .list elements, .list items => .list (items.map fun item => elements.shownPart item)
  | .set elements, .list members => .list (members.map fun member => elements.shownPart member)
  | .record _ elements, .map entries =>
    .map (entries.map fun entry => (entry.1, elements.shownPart entry.2))
  | .map attributes, .map entries =>
    .map (entries.filterMap fun entry =>
      (shownAttribute attributes entry.1 entry.2).map fun v => (entry.1, v))
  | .item attributes, .map entries =>
    .map (entries.filterMap fun entry =>
      (shownAttribute attributes entry.1 entry.2).map fun v => (entry.1, v))
  | .anyOf members, v => shownMember members v
  | _, v => v

/-- What is shown of the attribute called `name`, if anything is. -/
def shownAttribute : List (String × Schema) → String → Value → Option Value
  | [], _, v => some v
  | (declared, schema) :: rest, name, v =>
    if declared = name then if schema.isHidden then none else some (schema.shownPart v)
    else shownAttribute rest name v

def shownMember : List Schema → Value → Value
  | [], v => v
  | member :: rest, v =>
    if member.kind.typeName? = some v.typeName then member.shownPart v else shownMember rest v

end

theorem shownAttribute_of_mem {attributes : List (String × Schema)}
    (hd : Entries.Distinct attributes) {name : String} {schema : Schema}
    (h : (name, schema) ∈ attributes) (v : Value) : shownAttribute attributes name v =
      if schema.isHidden then none else some (schema.shownPart v) := by
  induction attributes with
  | nil => cases h
  | cons entry rest ih =>
    rw [Entries.distinct_cons] at hd
    rw [shownAttribute]
    rcases List.mem_cons.mp h with rfl | h
    · rw [if_pos rfl]
    · have hn : entry.1 ≠ name := by
        rintro rfl
        exact hd.1 (Entries.mem_names.mpr ⟨schema, h⟩)
      rw [if_neg hn]
      exact ih hd.2 h

theorem shownMember_of_mem {members : List Schema} {member : Schema} {v : Value}
    (hd : (members.map fun member => member.kind.typeName?).Nodup) (hm : member ∈ members)
    (ht : member.kind.typeName? = some v.typeName) :
    shownMember members v = member.shownPart v := by
  induction members with
  | nil => cases hm
  | cons first rest ih =>
    rw [List.map_cons, List.nodup_cons] at hd
    rw [shownMember]
    rcases List.mem_cons.mp hm with rfl | hm
    · rw [if_pos ht]
    · have hf : first.kind.typeName? ≠ some v.typeName := by
        intro hf
        exact hd.1 (List.mem_map.mpr ⟨member, hm, ht.trans hf.symm⟩)
      rw [if_neg hf]
      exact ih hd.2 hm

/-! ## Nothing hidden -/

theorem shownAttribute_eq_some {attributes : List (String × Schema)}
    (h : ∀ entry ∈ attributes, entry.2.isHidden = false ∧ ∀ v, entry.2.shownPart v = v)
    (name : String) (v : Value) : shownAttribute attributes name v = some v := by
  induction attributes with
  | nil => rfl
  | cons entry rest ih =>
    rw [List.forall_mem_cons] at h
    rw [shownAttribute, ih h.2, h.1.1, h.1.2]
    simp

theorem shownMember_eq_self {members : List Schema}
    (h : ∀ member ∈ members, ∀ v, member.shownPart v = v) (v : Value) :
    shownMember members v = v := by
  induction members with
  | nil => rfl
  | cons member rest ih =>
    rw [List.forall_mem_cons] at h
    rw [shownMember, ih h.2, h.1]
    exact ite_self v

/-- All of a value is shown where no attribute is hidden. -/
theorem Schema.shownPart_eq_self {schema : Schema}
    (h : schema.Everywhere fun node => ∀ attributes, node.kind.attributes? = some attributes →
      ∀ entry ∈ attributes, entry.2.isHidden = false) (v : Value) : schema.shownPart v = v := by
  induction schema using Schema.induct generalizing v with
  | node props kind ih =>
    have each : ∀ child ∈ kind.children, ∀ v, child.shownPart v = v :=
      fun child hc => ih child hc (h.child hc)
    have shown := h.root
    rw [Schema.shownPart]
    cases kind with
    | scalar kind => simp only [Kind.shownPart]
    | set elements | list elements =>
      cases v with
      | list items =>
        rw [Kind.shownPart, map_eq_self_iff.mpr fun item _ => each elements List.mem_cons_self item]
      | _ => simp only [Kind.shownPart]
    | record keys elements =>
      cases v with
      | map entries =>
        rw [Kind.shownPart, map_eq_self_iff.mpr fun entry _ => ?_]
        rw [each elements (by simp [Kind.children])]
      | _ => simp only [Kind.shownPart]
    | anyOf members =>
      rw [Kind.shownPart]
      exact shownMember_eq_self each v
    | map attributes | item attributes =>
      cases v with
      | map entries =>
        have all := shownAttribute_eq_some fun entry he =>
          ⟨shown attributes rfl entry he, each entry.2 (List.mem_map_of_mem he)⟩
        simp [Kind.shownPart, all]
      | _ => simp only [Kind.shownPart]

end ItemShape
