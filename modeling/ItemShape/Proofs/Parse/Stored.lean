import ItemShape.Proofs.Lists
import ItemShape.Proofs.Parse.Clash
import ItemShape.Proofs.Parse.Steps

/-!
# ItemShape.Proofs.Parse.Stored

The second step of a parse without an extension: it fails on clashes only, and otherwise it stores
every value of the filled tree, encoded, under the names the schema says (`stored_unless_clash`).

* `StoredBy`: what a node of a schema stores of a filled tree.
* `fillNode_owned`: without an extension no part of a tree is left to one.
-/

namespace ItemShape

mutual

/-- What a node stores of the tree it was filled with; of an absent one it stores nothing. -/
inductive StoredBy (settings : Settings) : Schema → Filled → Option Value → Prop where
  | absent {schema : Schema} : StoredBy settings schema .absent none
  | scalar {props : Props} {kind : ScalarKind} {v : Value} :
    StoredBy settings (.mk props (.scalar kind)) (.scalar props.transformer v)
      (some (Filled.encodeWith props.transformer v))
  | list {props : Props} {elements : Schema} {items : List Filled} {stored : List Value}
    (each : StoredItems settings elements items stored) :
    StoredBy settings (.mk props (.list elements)) (.list items) (some (.list stored))
  | set {props : Props} {elements : Schema} {members : List Filled} {stored : List Value}
    (each : StoredItems settings elements members stored) :
    StoredBy settings (.mk props (.set elements)) (.set members) (some (.list stored))
  | record {props : Props} {keys elements : Schema} {entries : List (String × Filled)}
    {stored : List (String × Value)} (each : StoredEntries settings keys elements entries stored)
    (distinct : Entries.Distinct stored) :
    StoredBy settings (.mk props (.record keys elements)) (.record keys.transformer? entries)
      (some (.map stored))
  /-- Maps and items. -/
  | attributes {props : Props} {kind : Kind Schema} {attributes : List (String × Schema)}
    {slots : List (Slot Filled)} {stored : List (String × Value)}
    (declares : kind.attributes? = some attributes)
    (each : StoredSlots settings (kind.parsed settings.mode attributes) slots stored)
    (distinct : Entries.Distinct stored) :
    StoredBy settings (.mk props kind) (.map slots) (some (.map stored))
  /-- The member that the tree comes from: the first one to accept what the node was given. -/
  | anyOf {props : Props} {earlier later : List Schema} {member : Schema} {path : ValuePath}
    {scope : Option LinkContext} {v : Value} {filled : Filled} {stored : Option Value}
    (rejected : ∀ other ∈ earlier, ∀ tree,
      fillNode other none (settings.at path) scope (some v) ≠ .ok tree)
    (accepts : fillNode member none (settings.at path) scope (some v) = .ok filled)
    (stores : StoredBy settings member filled stored) :
    StoredBy settings (.mk props (.anyOf (earlier ++ member :: later))) filled stored

/-- One value for each item, in the same order. -/
inductive StoredItems (settings : Settings) : Schema → List Filled → List Value → Prop where
  | nil {elements : Schema} : StoredItems settings elements [] []
  | cons {elements : Schema} {item : Filled} {t : Value} {items : List Filled}
    {stored : List Value} (first : StoredBy settings elements item (some t))
    (others : StoredItems settings elements items stored) :
    StoredItems settings elements (item :: items) (t :: stored)

/-- One entry for each entry, in the same order and under its encoded key. -/
inductive StoredEntries (settings : Settings) :
    Schema → Schema → List (String × Filled) → List (String × Value) → Prop where
  | nil {keys elements : Schema} : StoredEntries settings keys elements [] []
  | cons {keys elements : Schema} {key encoded : String} {content : Filled} {t : Value}
    {entries : List (String × Filled)} {stored : List (String × Value)}
    (named : Filled.encodeWith keys.transformer? (.string key) = .string encoded)
    (first : StoredBy settings elements content (some t))
    (others : StoredEntries settings keys elements entries stored) :
    StoredEntries settings keys elements ((key, content) :: entries) ((encoded, t) :: stored)

/-- One entry for each attribute that is present, in declaration order and under its stored
name. -/
inductive StoredSlots (settings : Settings) :
    List (String × Schema) → List (Slot Filled) → List (String × Value) → Prop where
  | nil : StoredSlots settings [] [] []
  | absent {name : String} {schema : Schema} {attributes : List (String × Schema)}
    {slots : List (Slot Filled)} {stored : List (String × Value)}
    (others : StoredSlots settings attributes slots stored) :
    StoredSlots settings ((name, schema) :: attributes)
      (⟨name, schema.storedName name, .absent⟩ :: slots) stored
  | present {name : String} {schema : Schema} {content : Filled} {t : Value}
    {attributes : List (String × Schema)} {slots : List (Slot Filled)}
    {stored : List (String × Value)} (first : StoredBy settings schema content (some t))
    (others : StoredSlots settings attributes slots stored) :
    StoredSlots settings ((name, schema) :: attributes)
      (⟨name, schema.storedName name, content⟩ :: slots) ((schema.storedName name, t) :: stored)

end

/-! ## Trees without an extension -/

theorem owned_rules (settings : Settings) :
    FillRules settings fun _ filled => filled.Everywhere Filled.Owned where
  scalar _ := Filled.everywhere_iff.mpr ⟨trivial, List.forall_mem_nil _⟩
  set each := Filled.everywhere_iff.mpr ⟨trivial, fun f hf => (each f hf).2⟩
  list each := Filled.everywhere_iff.mpr ⟨trivial, fun f hf => (each f hf).2⟩
  record each := by
    refine Filled.everywhere_iff.mpr ⟨trivial, fun child hc => ?_⟩
    obtain ⟨f, hf, rfl⟩ := List.mem_map.mp hc
    exact (each f hf).2
  anyOf _ _ h := h
  attributes _ each := by
    refine Filled.everywhere_iff.mpr ⟨trivial, fun child hc => ?_⟩
    obtain ⟨slot, hm, rfl⟩ := List.mem_map.mp hc
    obtain ⟨entry, -, hslot⟩ := exists_of_forall₂_right each slot hm
    rcases hslot.content with ha | ⟨-, h⟩
    · rw [ha]
      exact Filled.everywhere_iff.mpr ⟨trivial, List.forall_mem_nil _⟩
    · exact h

theorem fillNode_owned {schema : Schema} {settings : Settings} {scope : Option LinkContext}
    {input : Option Value} {filled : Filled}
    (h : fillNode schema none settings scope input = .ok filled) :
    filled.Everywhere Filled.Owned := by
  have hat : fillNode schema none (settings.at settings.path) scope input = .ok filled := h
  rcases (owned_rules settings).fillNode hat with ⟨-, h⟩ | ⟨-, rfl⟩
  · exact h
  · exact Filled.everywhere_iff.mpr ⟨trivial, List.forall_mem_nil _⟩

/-! ## What is stored -/

/-- Wherever the tree can be stored, it is stored as the schema says. -/
def Filled.StoredAlways (settings : Settings) (schema : Schema) (filled : Filled) : Prop :=
  ∀ path stored, filled.store path = .ok stored → StoredBy settings schema filled stored

section Rules

variable {settings : Settings} {props : Props} {keys elements : Schema}

theorem storedItems_of_forall₂ {fs : List Filled} {stored : List Value}
    (each : ∀ f ∈ fs, f.StoredAlways settings elements)
    (h : List.Forall₂ (fun f t => ∃ path, f.store path = .ok (some t)) fs stored) :
    StoredItems settings elements fs stored := by
  induction h with
  | nil => exact .nil
  | cons hf _ ih =>
    rw [List.forall_mem_cons] at each
    obtain ⟨path, hf⟩ := hf
    exact .cons (each.1 path _ hf) (ih each.2)

theorem storedEntries_of_forall₂ {fs : List (String × Filled)} {stored : List (String × Value)}
    (each : ∀ f ∈ fs, f.2.StoredAlways settings elements)
    (h : List.Forall₂ (fun f entry =>
      Filled.encodeWith keys.transformer? (.string f.1) = .string entry.1 ∧
        ∃ path, f.2.store path = .ok (some entry.2)) fs stored) :
    StoredEntries settings keys elements fs stored := by
  induction h with
  | nil => exact .nil
  | cons hf _ ih =>
    rw [List.forall_mem_cons] at each
    obtain ⟨named, path, hf⟩ := hf
    exact .cons named (each.1 path _ hf) (ih each.2)

theorem storedAlways_list {fs : List Filled}
    (each : ∀ f ∈ fs, f.Present ∧ f.StoredAlways settings elements) :
    (Filled.list fs).StoredAlways settings (.mk props (.list elements)) := by
  intro path stored hs
  simp only [Filled.store] at hs
  split at hs
  · cases hs
  · rename_i values hv
    cases hs
    have stored := Filled.storeItems_ok (fun f hf => (each f hf).1.stores) hv
    exact .list (storedItems_of_forall₂ (fun f hf => (each f hf).2) stored)

theorem storedAlways_set {fs : List Filled}
    (each : ∀ f ∈ fs, f.Present ∧ f.StoredAlways settings elements) :
    (Filled.set fs).StoredAlways settings (.mk props (.set elements)) := by
  intro path stored hs
  simp only [Filled.store] at hs
  split at hs
  · cases hs
  · rename_i values hv
    cases hs
    have stored := Filled.storeMembers_ok (fun f hf => (each f hf).1.stores) hv
    exact .set (storedItems_of_forall₂ (fun f hf => (each f hf).2) stored)

theorem storedAlways_record {fs : List (String × Filled)}
    (each : ∀ f ∈ fs, f.2.Present ∧ f.2.StoredAlways settings elements) :
    (Filled.record keys.transformer? fs).StoredAlways settings
      (.mk props (.record keys elements)) := by
  intro path stored hs
  simp only [Filled.store] at hs
  split at hs
  · cases hs
  · rename_i entries he
    cases hs
    obtain ⟨stored, distinct, -⟩ := Filled.storeEntries_ok (fun f hf => (each f hf).1.stores) he
    exact .record (storedEntries_of_forall₂ (fun f hf => (each f hf).2) stored) distinct

/-- By induction on the slots; the names taken before do not appear again. -/
theorem storedSlots_of_forall₂ {path : ValuePath} {attributes : List (String × Schema)}
    {slots : List (Slot Filled)} {taken : List String} {stored : List (String × Value)}
    (hs : List.Forall₂ (SlotWith (Filled.StoredAlways settings)) attributes slots)
    (h : Filled.storeSlots path taken slots = .ok stored) :
    StoredSlots settings attributes slots stored ∧ Entries.Distinct stored ∧
      ∀ name ∈ Entries.names stored, name ∉ taken := by
  induction hs generalizing taken stored with
  | nil =>
    simp only [Filled.storeSlots] at h
    cases h
    exact ⟨.nil, List.nodup_nil, List.forall_mem_nil _⟩
  | @cons entry slot _ _ hslot _ ih =>
    obtain ⟨name, schema⟩ := entry
    obtain ⟨_, _, content⟩ := slot
    obtain ⟨hname, hstored, hcontent⟩ := hslot
    dsimp only at hname hstored hcontent
    subst hname hstored
    simp only [Filled.storeSlots] at h
    split at h
    · cases h
    · rename_i hn
      obtain ⟨hrest, hfresh⟩ := ih h
      rcases hcontent with rfl | ⟨present, -⟩
      · exact ⟨.absent hrest, hfresh⟩
      · exact absurd rfl (present.stores _ _ hn)
    · rename_i t ht
      split at h
      · cases h
      · rename_i htaken
        split at h
        · cases h
        · rename_i others ho
          cases h
          obtain ⟨hrest, hd, hfresh⟩ := ih ho
          have stores : StoredBy settings schema content (some t) := by
            rcases hcontent with rfl | ⟨-, stores⟩
            · cases ht
            · exact stores _ _ ht
          refine ⟨.present stores hrest,
            Entries.distinct_cons.mpr ⟨fun hm => ?_, hd⟩, fun other hm => ?_⟩
          · exact hfresh _ hm List.mem_cons_self
          · rcases List.mem_cons.mp hm with rfl | hm
            · simpa using htaken
            · exact fun ht => hfresh other hm (List.mem_cons_of_mem _ ht)

theorem storedAlways_attributes {kind : Kind Schema} {attributes : List (String × Schema)}
    (hk : kind.attributes? = some attributes) {slots : List (Slot Filled)}
    (each : List.Forall₂ (SlotWith (Filled.StoredAlways settings))
      (kind.parsed settings.mode attributes) slots) :
    (Filled.map slots).StoredAlways settings (.mk props kind) := by
  intro path stored hs
  simp only [Filled.store] at hs
  split at hs
  · cases hs
  · rename_i entries he
    cases hs
    obtain ⟨stores, distinct, -⟩ := storedSlots_of_forall₂ each he
    exact .attributes hk stores distinct

end Rules

theorem storedAlways_rules (settings : Settings) :
    FillRules settings (Filled.StoredAlways settings) where
  scalar _ := by
    intro path stored hs
    cases hs
    exact .scalar
  set each := storedAlways_set each
  list each := storedAlways_list each
  record each := storedAlways_record each
  anyOf rejected accepts h := fun path stored hs => .anyOf rejected accepts (h path stored hs)
  attributes hk each := storedAlways_attributes hk each

/-- Every tree filled from the schema is stored as the schema says. -/
theorem fillNode_storedAlways (schema : Schema) (settings : Settings) (path : ValuePath)
    (scope : Option LinkContext) (input : Option Value) (filled : Filled)
    (h : fillNode schema none (settings.at path) scope input = .ok filled) :
    filled.StoredAlways settings schema := by
  rcases (storedAlways_rules settings).fillNode h with ⟨-, h⟩ | ⟨-, rfl⟩
  · exact h
  · intro place stored hs
    cases hs
    exact .absent

/-- The second step of a parse without an extension fails exactly if there is a clash somewhere in
the filled tree. Otherwise it stores all that is in the tree, as the schema says. -/
theorem stored_unless_clash {schema : Schema} {options : ParseOptions} {input : Option Value}
    {filled : Filled} (hx : options.extension = none) (ht : options.transform = true)
    (h : fillNode schema none options.toSettings none input = .ok filled) :
    let outcome := filled.store options.path
    (schema.start options input).outcomes = [.ok filled.value?, outcome] ∧
      ((∃ e, outcome = .error e) ↔ ∃ node, Filled.Within node filled ∧ node.Clash) ∧
      ∀ stored, outcome = .ok stored → StoredBy options.toSettings schema filled stored := by
  intro outcome
  refine ⟨?steps, Filled.store_error_iff (fillNode_owned h) options.path, ?stores⟩
  case steps =>
    rw [Schema.start, start, hx, h, Parser.outcomes_new, ht]
    rfl
  case stores =>
    exact fillNode_storedAlways schema options.toSettings options.path none input filled h
      options.path

/-- Two attributes are saved under one name. -/
theorem stored_unless_clash_shared_name :
    let schema := Schema.ofKind (.map [("id", (Schema.scalar .string).savedAs "pk"),
      ("name", (Schema.scalar .string).savedAs "pk")])
    let input := some (Value.map [("id", .string "u"), ("name", .string "n")])
    let filled := Filled.map
      [⟨"id", "pk", .scalar none (.string "u")⟩, ⟨"name", "pk", .scalar none (.string "n")⟩]
    let options := ParseOptions.ofMode .put
    (schema.start options input).outcomes = [.ok input, filled.store options.path] ∧
      ∃ e, filled.store options.path = .error e := by
  intro schema input filled options
  have given : fillNode schema none options.toSettings none input = .ok filled := rfl
  obtain ⟨steps, fails, -⟩ := stored_unless_clash (rfl : options.extension = none) rfl given
  have clash : filled.Clash := ⟨_, _, List.Sublist.refl _, trivial, trivial, rfl⟩
  exact ⟨steps, fails.mpr ⟨filled, .refl, clash⟩⟩

end ItemShape
