import ItemShape.Parse.Filled
import ItemShape.Proofs.Entries
import Mathlib.Data.List.Forall2

/-!
# ItemShape.Proofs.Parse.Filled

Values of filled trees. Children that all have a value have their values in the same order
(`itemValues_of_forall₂`, `entryValues_of_forall₂`); in a map the value of a slot stands under the
name of the slot, and nothing else does (`get?_slotValues`).
-/

namespace ItemShape
namespace Filled

theorem itemValues_of_forall₂ {α : Type} {R : α → Value → Prop} {as : List α} {fs : List Filled}
    (h : List.Forall₂ (fun a f => ∃ w, f.value? = some w ∧ R a w) as fs) :
    List.Forall₂ R as (itemValues fs) := by
  induction h with
  | nil => exact .nil
  | cons hf _ ih =>
    obtain ⟨w, hw, hr⟩ := hf
    simp only [itemValues, hw]
    exact .cons hr ih

theorem entryValues_of_forall₂ {α : Type} {R : α → String × Value → Prop} {as : List α}
    {fs : List (String × Filled)}
    (h : List.Forall₂ (fun a f => ∃ w, f.2.value? = some w ∧ R a (f.1, w)) as fs) :
    List.Forall₂ R as (entryValues fs) := by
  induction h with
  | nil => exact .nil
  | cons hf _ ih =>
    obtain ⟨w, hw, hr⟩ := hf
    simp only [entryValues, hw]
    exact .cons hr ih

theorem names_slotValues (slots : List (Slot Filled)) :
    List.Sublist (Entries.names (slotValues slots)) (slots.map Slot.name) := by
  induction slots with
  | nil => exact .slnil
  | cons slot rest ih =>
    simp only [slotValues]
    cases slot.content.value? with
    | none => exact ih.cons _
    | some w => exact ih.cons_cons _

theorem get?_slotValues {slots : List (Slot Filled)} (hd : (slots.map Slot.name).Nodup)
    {slot : Slot Filled} (hs : slot ∈ slots) :
    Entries.get? slot.name (slotValues slots) = slot.content.value? := by
  induction slots with
  | nil => cases hs
  | cons first rest ih =>
    rw [List.map_cons, List.nodup_cons] at hd
    have hfirst : first.name ∉ Entries.names (slotValues rest) :=
      fun h => hd.1 ((names_slotValues rest).subset h)
    simp only [slotValues]
    rcases List.mem_cons.mp hs with rfl | hr
    · cases slot.content.value? with
      | none => exact Entries.get?_eq_none_iff.mpr hfirst
      | some w => exact Entries.get?_cons_self (slot.name, w) _
    · have hne : first.name ≠ slot.name := fun h => hd.1 (h ▸ List.mem_map_of_mem hr)
      cases first.content.value? with
      | none => exact ih hd.2 hr
      | some w => exact (Entries.get?_cons_ne hne _).trans (ih hd.2 hr)

theorem itemValues_eq_filterMap (fs : List Filled) : itemValues fs = fs.filterMap value? := by
  induction fs with
  | nil => rfl
  | cons f rest ih =>
    simp only [itemValues, List.filterMap_cons]
    cases f.value? with
    | none => exact ih
    | some v => rw [ih]

/-- The values of a list are those of its children. -/
theorem mem_itemValues {fs : List Filled} {v : Value} :
    v ∈ itemValues fs ↔ ∃ f ∈ fs, f.value? = some v := by
  rw [itemValues_eq_filterMap, List.mem_filterMap]

theorem entryValues_eq_filterMap (fs : List (String × Filled)) :
    entryValues fs = fs.filterMap fun f => f.2.value?.map fun v => (f.1, v) := by
  induction fs with
  | nil => rfl
  | cons f rest ih =>
    simp only [entryValues, List.filterMap_cons]
    cases f.2.value? with
    | none => exact ih
    | some v => rw [ih]; rfl

theorem names_entryValues (fs : List (String × Filled)) :
    List.Sublist (Entries.names (entryValues fs)) (Entries.names fs) := by
  induction fs with
  | nil => exact .slnil
  | cons f rest ih =>
    simp only [entryValues]
    cases f.2.value? with
    | none => exact ih.cons _
    | some v => exact ih.cons_cons _

/-- The entries of a record are those of its children. -/
theorem mem_entryValues {fs : List (String × Filled)} {entry : String × Value} :
    entry ∈ entryValues fs ↔ ∃ f ∈ fs, f.1 = entry.1 ∧ f.2.value? = some entry.2 := by
  rw [entryValues_eq_filterMap, List.mem_filterMap]
  simp only [Option.map_eq_some_iff, Prod.ext_iff]
  constructor
  · rintro ⟨f, hf, v, hv, hn, rfl⟩
    exact ⟨f, hf, hn, hv⟩
  · rintro ⟨f, hf, hn, hv⟩
    exact ⟨f, hf, entry.2, hv, hn, rfl⟩

theorem get?_entryValues {fs : List (String × Filled)} (hd : Entries.Distinct fs)
    {f : String × Filled} (hf : f ∈ fs) {v : Value} (hv : f.2.value? = some v) :
    Entries.get? f.1 (entryValues fs) = some v :=
  Entries.get?_of_mem ((names_entryValues fs).nodup hd) (mem_entryValues.mpr ⟨f, hf, rfl, hv⟩)

/-- Every entry of a map comes from a slot. -/
theorem exists_slot_of_mem {slots : List (Slot Filled)} {entry : String × Value}
    (h : entry ∈ slotValues slots) :
    ∃ slot ∈ slots, slot.name = entry.1 ∧ slot.content.value? = some entry.2 := by
  induction slots with
  | nil => cases h
  | cons first rest ih =>
    simp only [slotValues] at h
    split at h
    · obtain ⟨slot, hs, hn⟩ := ih h
      exact ⟨slot, List.mem_cons_of_mem _ hs, hn⟩
    · rename_i w hw
      rcases List.mem_cons.mp h with rfl | h
      · exact ⟨first, List.mem_cons_self, rfl, hw⟩
      · obtain ⟨slot, hs, hn⟩ := ih h
        exact ⟨slot, List.mem_cons_of_mem _ hs, hn⟩

end Filled
end ItemShape
