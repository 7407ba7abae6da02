import ItemShape.Parse.Filled
import ItemShape.Proofs.Entries
import Mathlib.Data.List.Forall2

/-!
# ItemShape.Proofs.Parse.Store

What a successful second step says about the children of a node. Children that must have a value to
store have it at the same position; in a map the value of a slot stands under its stored name
(`get?_storeSlots`), and nothing stands under another one (`exists_slot_of_mem_names_stored`).
-/

namespace ItemShape
namespace Filled

variable {path : ValuePath}

/-! ## Compound trees -/

theorem store_list (path : ValuePath) (items : List Filled) : (Filled.list items).store path =
    (storeItems path 0 items).map fun values => some (.list values) := by
  rw [store]
  cases storeItems path 0 items <;> rfl

theorem store_set (path : ValuePath) (members : List Filled) : (Filled.set members).store path =
    (storeMembers path members).map fun values => some (.list values) := by
  rw [store]
  cases storeMembers path members <;> rfl

theorem store_map (path : ValuePath) (slots : List (Slot Filled)) : (Filled.map slots).store path =
    (storeSlots path [] slots).map fun entries => some (.map entries) := by
  rw [store]
  cases storeSlots path [] slots <;> rfl

theorem store_record (path : ValuePath) (keys : Option Transformer)
    (entries : List (String × Filled)) : (Filled.record keys entries).store path =
      (storeEntries path keys [] entries).map fun stored => some (.map stored) := by
  rw [store]
  cases storeEntries path keys [] entries <;> rfl

theorem exists_map_ok_iff {α β : Type} {f : α → β} {outcome : Except SchemaError α} :
    (∃ b, outcome.map f = .ok b) ↔ ∃ a, outcome = .ok a := by
  cases outcome <;> simp [Except.map]

theorem map_ok_iff {α β : Type} {f : α → β} {outcome : Except SchemaError α} {b : β} :
    outcome.map f = .ok b ↔ ∃ a, outcome = .ok a ∧ f a = b := by
  cases outcome <;> simp [Except.map]

/-! ## Children -/

theorem storeItems_cons (path : ValuePath) (position : Nat) (item : Filled) (rest : List Filled) :
    storeItems path position (item :: rest) =
      (item.store (path.index position)).bind fun value =>
        (storeItems path (position + 1) rest).map fun values => value.toList ++ values := by
  rw [storeItems]
  cases item.store (path.index position) with
  | error e => rfl
  | ok value =>
    dsimp only [Except.bind]
    cases storeItems path (position + 1) rest <;> rfl

theorem storeItems_cons_ok_iff {position : Nat} {item : Filled} {rest : List Filled}
    {values : List Value} : storeItems path position (item :: rest) = .ok values ↔
      ∃ value others, item.store (path.index position) = .ok value ∧
        storeItems path (position + 1) rest = .ok others ∧ value.toList ++ others = values := by
  rw [storeItems_cons]
  cases item.store (path.index position) with
  | error e => simp [Except.bind]
  | ok value => simp [Except.bind, map_ok_iff]

theorem storeMembers_cons (path : ValuePath) (member : Filled) (rest : List Filled) :
    storeMembers path (member :: rest) =
      (member.store path).bind fun value =>
        (storeMembers path rest).map fun values => value.toList ++ values := by
  rw [storeMembers]
  cases member.store path with
  | error e => rfl
  | ok value =>
    dsimp only [Except.bind]
    cases storeMembers path rest <;> rfl

theorem storeMembers_cons_ok_iff {member : Filled} {rest : List Filled} {values : List Value} :
    storeMembers path (member :: rest) = .ok values ↔
      ∃ value others, member.store path = .ok value ∧
        storeMembers path rest = .ok others ∧ value.toList ++ others = values := by
  rw [storeMembers_cons]
  cases member.store path with
  | error e => simp [Except.bind]
  | ok value => simp [Except.bind, map_ok_iff]

/-- Where the second step succeeds, it stores a value. -/
def Stores (filled : Filled) : Prop :=
  ∀ path t, filled.store path = .ok t → t ≠ none

theorem storeItems_ok {position : Nat} {fs : List Filled} {values : List Value}
    (hs : ∀ f ∈ fs, f.Stores) (h : storeItems path position fs = .ok values) :
    List.Forall₂ (fun f t => ∃ path, f.store path = .ok (some t)) fs values := by
  induction fs generalizing position values with
  | nil =>
    cases h
    exact .nil
  | cons f rest ih =>
    rw [List.forall_mem_cons] at hs
    obtain ⟨value, others, hf, hr, rfl⟩ := storeItems_cons_ok_iff.mp h
    obtain ⟨t, rfl⟩ := Option.ne_none_iff_exists'.mp (hs.1 _ _ hf)
    exact .cons ⟨_, hf⟩ (ih hs.2 hr)

theorem storeMembers_ok {fs : List Filled} {values : List Value} (hs : ∀ f ∈ fs, f.Stores)
    (h : storeMembers path fs = .ok values) :
    List.Forall₂ (fun f t => ∃ path, f.store path = .ok (some t)) fs values := by
  induction fs generalizing values with
  | nil =>
    cases h
    exact .nil
  | cons f rest ih =>
    rw [List.forall_mem_cons] at hs
    obtain ⟨value, others, hf, hr, rfl⟩ := storeMembers_cons_ok_iff.mp h
    obtain ⟨t, rfl⟩ := Option.ne_none_iff_exists'.mp (hs.1 _ _ hf)
    exact .cons ⟨_, hf⟩ (ih hs.2 hr)

/-- Stored keys are distinct, also from those taken before. -/
theorem storeEntries_ok {keys : Option Transformer} {taken : List String}
    {fs : List (String × Filled)} {entries : List (String × Value)} (hs : ∀ f ∈ fs, f.2.Stores)
    (h : storeEntries path keys taken fs = .ok entries) :
    List.Forall₂ (fun f entry => encodeWith keys (.string f.1) = .string entry.1 ∧
        ∃ path, f.2.store path = .ok (some entry.2)) fs entries ∧
      Entries.Distinct entries ∧ ∀ name ∈ Entries.names entries, name ∉ taken := by
  induction fs generalizing taken entries with
  | nil =>
    simp only [storeEntries] at h
    cases h
    exact ⟨.nil, List.nodup_nil, List.forall_mem_nil _⟩
  | cons f rest ih =>
    obtain ⟨key, content⟩ := f
    rw [List.forall_mem_cons] at hs
    simp only [storeEntries] at h
    split at h
    · cases h
    · rename_i hf
      exact absurd rfl (hs.1 _ _ hf)
    · rename_i t hf
      split at h
      · cases h
      · rename_i stored hk
        split at h
        · cases h
        · rename_i htaken
          split at h
          · cases h
          · rename_i others hr
            cases h
            obtain ⟨hrest, hd, hfresh⟩ := ih hs.2 hr
            have hkey : encodeWith keys (.string key) = .string stored := by
              simp only [storedKey] at hk
              split at hk
              · cases hk
                assumption
              · cases hk
            refine ⟨.cons ⟨hkey, _, hf⟩ hrest, Entries.distinct_cons.mpr ⟨fun hm => ?_, hd⟩, ?_⟩
            · exact hfresh stored hm List.mem_cons_self
            · intro name hn
              rcases List.mem_cons.mp hn with rfl | hn
              · simpa using htaken
              · exact fun ht => hfresh name hn (List.mem_cons_of_mem _ ht)

/-- Every stored name is that of a slot with something to store, and none was taken before. -/
theorem exists_slot_of_mem_names_stored {taken : List String} {slots : List (Slot Filled)}
    {entries : List (String × Value)} (h : storeSlots path taken slots = .ok entries)
    {name : String} (hn : name ∈ Entries.names entries) :
    name ∉ taken ∧ ∃ slot ∈ slots, slot.stored = name ∧
      ∃ place t, slot.content.store place = .ok (some t) := by
  induction slots generalizing taken entries with
  | nil =>
    cases h
    cases hn
  | cons first rest ih =>
    simp only [storeSlots] at h
    split at h
    · cases h
    · obtain ⟨hfree, slot, hs, hslot⟩ := ih h hn
      exact ⟨hfree, slot, List.mem_cons_of_mem _ hs, hslot⟩
    · rename_i t hf
      split at h
      · cases h
      · rename_i htaken
        split at h
        · cases h
        · rename_i others hr
          cases h
          rcases List.mem_cons.mp hn with rfl | hn
          · exact ⟨by simpa using htaken, first, List.mem_cons_self, rfl, _, t, hf⟩
          · obtain ⟨hfree, slot, hs, hslot⟩ := ih hr hn
            exact ⟨fun ht => hfree (List.mem_cons_of_mem _ ht), slot,
              List.mem_cons_of_mem _ hs, hslot⟩

theorem names_storeSlots {taken : List String} {slots : List (Slot Filled)}
    {entries : List (String × Value)} (h : storeSlots path taken slots = .ok entries) :
    Entries.names entries ⊆ slots.map Slot.stored := by
  intro name hn
  obtain ⟨-, slot, hs, rfl, -⟩ := exists_slot_of_mem_names_stored h hn
  exact List.mem_map_of_mem hs

theorem get?_storeSlots {taken : List String} {slots : List (Slot Filled)}
    {entries : List (String × Value)} (h : storeSlots path taken slots = .ok entries)
    {slot : Slot Filled} (hm : slot ∈ slots) (hs : slot.content.Stores) :
    ∃ place t, slot.content.store place = .ok (some t) ∧
      Entries.get? slot.stored entries = some t := by
  induction slots generalizing taken entries with
  | nil => cases hm
  | cons first rest ih =>
    simp only [storeSlots] at h
    split at h
    · cases h
    · rename_i hf
      rcases List.mem_cons.mp hm with rfl | hm
      · exact absurd rfl (hs _ _ hf)
      · exact ih h hm
    · rename_i t hf
      split at h
      · cases h
      · split at h
        · cases h
        · rename_i others hr
          cases h
          rcases List.mem_cons.mp hm with rfl | hm
          · exact ⟨_, t, hf, Entries.get?_cons_self (slot.stored, t) others⟩
          · obtain ⟨place, u, hstore, hget⟩ := ih hr hm
            have hstored : slot.stored ∈ Entries.names others :=
              Entries.exists_get?_iff.mp ⟨u, hget⟩
            have hne : first.stored ≠ slot.stored := by
              intro he
              have hfree := (exists_slot_of_mem_names_stored hr hstored).1
              exact hfree (he ▸ List.mem_cons_self)
            exact ⟨place, u, hstore, (Entries.get?_cons_ne hne others).trans hget⟩

/-! Where a stored value comes from. -/

theorem exists_item_of_mem_stored {position : Nat} {fs : List Filled} {values : List Value}
    (h : storeItems path position fs = .ok values) {t : Value} (hm : t ∈ values) :
    ∃ f ∈ fs, ∃ place, f.store place = .ok (some t) := by
  induction fs generalizing position values with
  | nil =>
    cases h
    cases hm
  | cons f rest ih =>
    obtain ⟨value, others, hf, hr, rfl⟩ := storeItems_cons_ok_iff.mp h
    rcases List.mem_append.mp hm with hm | hm
    · rw [Option.mem_toList] at hm
      cases hm
      exact ⟨f, List.mem_cons_self, _, hf⟩
    · obtain ⟨g, hg, place, hs⟩ := ih hr hm
      exact ⟨g, List.mem_cons_of_mem _ hg, place, hs⟩

theorem exists_member_of_mem_stored {fs : List Filled} {values : List Value}
    (h : storeMembers path fs = .ok values) {t : Value} (hm : t ∈ values) :
    ∃ f ∈ fs, f.store path = .ok (some t) := by
  induction fs generalizing values with
  | nil =>
    cases h
    cases hm
  | cons f rest ih =>
    obtain ⟨value, others, hf, hr, rfl⟩ := storeMembers_cons_ok_iff.mp h
    rcases List.mem_append.mp hm with hm | hm
    · rw [Option.mem_toList] at hm
      cases hm
      exact ⟨f, List.mem_cons_self, hf⟩
    · obtain ⟨g, hg, hs⟩ := ih hr hm
      exact ⟨g, List.mem_cons_of_mem _ hg, hs⟩

end Filled
end ItemShape
