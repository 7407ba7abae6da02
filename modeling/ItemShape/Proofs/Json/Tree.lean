import ItemShape.Json
import ItemShape.Proofs.Entries

/-!
# ItemShape.Proofs.Json.Tree

Documents as trees. `Json.induct` is induction with a hypothesis for every item of an array and
every member of an object, `Json.induct_below` with one for everything inside the document
(`Json.Below`).
-/

namespace ItemShape
namespace Json

/-- The members of an object. -/
def members? : Json → Option (List (String × Json))
  | object members => some members
  | _ => none

/-- The items of an array. -/
def items? : Json → Option (List Json)
  | array items => some items
  | _ => none

theorem induct {P : Json → Prop} (null : P .null) (bool : ∀ b, P (.bool b))
    (number : ∀ n, P (.number n)) (string : ∀ s, P (.string s))
    (array : ∀ items, (∀ item ∈ items, P item) → P (.array items))
    (object : ∀ members, (∀ entry ∈ members, P entry.2) → P (.object members)) : ∀ j, P j := by
  intro j
  refine Json.rec (motive_1 := P) (motive_2 := fun items => ∀ item ∈ items, P item)
    (motive_3 := fun members => ∀ entry ∈ members, P entry.2) (motive_4 := fun entry => P entry.2)
    null bool number string array object ?_ ?_ ?_ ?_ ?_ j
  · intro item h; cases h
  · intro head tail hh ht item h
    rcases List.mem_cons.mp h with rfl | h
    · exact hh
    · exact ht item h
  · intro entry h; cases h
  · intro head tail hh ht entry h
    rcases List.mem_cons.mp h with rfl | h
    · exact hh
    · exact ht entry h
  · intro name value h; exact h

/-- The documents directly inside a document. -/
def children : Json → List Json
  | array items => items
  | object members => members.map Prod.snd
  | _ => []

/-- The first document stands somewhere inside the second. -/
inductive Below : Json → Json → Prop where
  | child {i j : Json} (h : i ∈ j.children) : Below i j
  | inside {i j k : Json} (h : Below i j) (hc : j ∈ k.children) : Below i k

theorem induct_below {P : Json → Prop} (step : ∀ j, (∀ i, i.Below j → P i) → P j) (j : Json) :
    P j := by
  have node (j : Json) (ih : ∀ child ∈ j.children, ∀ i, i.Below child → P i) :
      ∀ i, i.Below j → P i := by
    intro i hi
    cases hi with
    | child h => exact step i (ih i h)
    | inside h hc => exact ih _ hc i h
  refine step j ?_
  induction j using Json.induct with
  | array items ih => exact node _ ih
  | object members ih =>
    refine node _ fun child hc => ?_
    obtain ⟨entry, he, rfl⟩ := List.mem_map.mp hc
    exact ih entry he
  | _ => exact node _ (List.forall_mem_nil _)

theorem mem_children_of_get? {name : String} {value : Json} {members : List (String × Json)}
    (h : Entries.get? name members = some value) : value ∈ (Json.object members).children :=
  List.mem_map_of_mem (Entries.mem_of_get? h)

theorem mem_children_of_members? {j : Json} {members : List (String × Json)}
    (h : j.members? = some members) {entry : String × Json} (he : entry ∈ members) :
    entry.2 ∈ j.children := by
  cases j <;> cases h
  exact List.mem_map_of_mem he

theorem mem_children_of_items? {j : Json} {items : List Json} (h : j.items? = some items)
    {item : Json} (hi : item ∈ items) : item ∈ j.children := by
  cases j <;> cases h
  exact hi

end Json
end ItemShape
