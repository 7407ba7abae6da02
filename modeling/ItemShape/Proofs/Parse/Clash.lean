import ItemShape.Proofs.Parse.Present

/-!
# ItemShape.Proofs.Parse.Clash

What makes the second step fail, in a tree without parts of an extension: two children of a map or
record that would be stored under one name, or a record key that is encoded as something other than
a string, at any depth (`store_error_iff`).
-/

namespace ItemShape
namespace Filled

/-! ## Nodes -/

/-- The trees directly below a node. -/
def children : Filled → List Filled
  | .list items => items
  | .set members => members
  | .map slots => slots.map Slot.content
  | .record _ entries => entries.map Prod.snd
  | .absent | .scalar _ _ | .extended _ _ => []

theorem induct {P : Filled → Prop}
    (node : ∀ filled : Filled, (∀ child ∈ filled.children, P child) → P filled) :
    ∀ filled, P filled := by
  intro filled
  refine Filled.rec (motive_1 := P) (motive_2 := fun items => ∀ child ∈ items, P child)
    (motive_3 := fun slots => ∀ child ∈ slots.map Slot.content, P child)
    (motive_4 := fun entries => ∀ child ∈ entries.map Prod.snd, P child)
    (motive_5 := fun slot => P slot.content) (motive_6 := fun entry => P entry.2)
    ?_ ?_ ?_ ?_ ?_ ?_ ?_ ?_ ?_ ?_ ?_ ?_ ?_ ?_ ?_ filled
  · exact node .absent nofun
  · exact fun transformer v => node (.scalar transformer v) nofun
  · exact fun items => node (.list items)
  · exact fun members => node (.set members)
  · exact fun slots => node (.map slots)
  · exact fun keys entries => node (.record keys entries)
  · exact fun filled rest => node (.extended filled rest) nofun
  · exact nofun
  · exact fun _ _ hh ht => List.forall_mem_cons.mpr ⟨hh, ht⟩
  · exact nofun
  · exact fun _ _ hh ht => List.forall_mem_cons.mpr ⟨hh, ht⟩
  · exact nofun
  · exact fun _ _ hh ht => List.forall_mem_cons.mpr ⟨hh, ht⟩
  · exact fun _ _ _ h => h
  · exact fun _ _ h => h

/-- The first tree is the second or stands somewhere below it. -/
inductive Within : Filled → Filled → Prop where
  | refl {filled : Filled} : Within filled filled
  | inside {node child filled : Filled} (hc : child ∈ filled.children) (h : Within node child) :
    Within node filled

/-- Every node of the tree satisfies the condition, the root included. -/
def Everywhere (P : Filled → Prop) (filled : Filled) : Prop :=
  ∀ node, Within node filled → P node

theorem everywhere_iff {P : Filled → Prop} {filled : Filled} :
    filled.Everywhere P ↔ P filled ∧ ∀ child ∈ filled.children, child.Everywhere P := by
  constructor
  · intro h
    exact ⟨h filled .refl, fun child hc node hn => h node (.inside hc hn)⟩
  · rintro ⟨hp, hc⟩ node hn
    cases hn with
    | refl => exact hp
    | inside hm hn => exact hc _ hm node hn

theorem Everywhere.root {P : Filled → Prop} {filled : Filled} (h : filled.Everywhere P) :
    P filled :=
  (everywhere_iff.mp h).1

/-- Not left to an extension. -/
def Owned : Filled → Prop
  | .extended _ _ => False
  | _ => True

theorem Owned.absent_or_present {filled : Filled} (h : filled.Owned) :
    filled = .absent ∨ filled.Present := by
  cases filled with
  | absent => exact .inl rfl
  | extended _ _ => cases h
  | _ => exact .inr trivial

/-! ## Clashes -/

/-- Two present children would be stored under one name, or a present entry under a key that is no
string. -/
def Clash : Filled → Prop
  | .map slots => ∃ slot other, List.Sublist [slot, other] slots ∧ slot.content.Present ∧
      other.content.Present ∧ slot.stored = other.stored
  | .record keys entries =>
    (∃ entry ∈ entries, entry.2.Present ∧
      ∀ key, encodeWith keys (.string entry.1) ≠ .string key) ∨
    ∃ entry other, List.Sublist [entry, other] entries ∧ entry.2.Present ∧ other.2.Present ∧
      encodeWith keys (.string entry.1) = encodeWith keys (.string other.1)
  | _ => False

/-- No two of the given children have one name, and none has a name that is taken. -/
def Apart {α κ : Type} (given : α → Prop) (name : α → κ) (taken : List κ) (as : List α) : Prop :=
  as.Pairwise (fun a b => given a → given b → name a ≠ name b) ∧
    ∀ a ∈ as, given a → name a ∉ taken

section Apart

variable {α κ : Type} {given : α → Prop} {name : α → κ} {taken : List κ} {a : α} {as : List α}

@[simp] theorem apart_nil : Apart given name taken [] := by
  simp [Apart]

theorem apart_cons : Apart given name taken (a :: as) ↔
    (given a → name a ∉ taken ∧ Apart given name (name a :: taken) as) ∧
      (¬ given a → Apart given name taken as) := by
  by_cases h : given a
  · simp only [h, Apart, List.pairwise_cons, List.forall_mem_cons, forall_const, not_true_eq_false,
      false_implies, and_true]
    constructor
    · rintro ⟨⟨hne, hpair⟩, hfree, htaken⟩
      refine ⟨hfree, hpair, fun b hb hg hm => ?_⟩
      rcases List.mem_cons.mp hm with hm | hm
      · exact hne b hb hg hm.symm
      · exact htaken b hb hg hm
    · rintro ⟨hfree, hpair, htaken⟩
      refine ⟨⟨fun b hb hg hn => ?_, hpair⟩, hfree, fun b hb hg hm => ?_⟩
      · exact htaken b hb hg (hn ▸ List.mem_cons_self)
      · exact htaken b hb hg (List.mem_cons_of_mem _ hm)
  · simp [Apart, h]

theorem apart_nil_taken_iff :
    Apart given name [] as ↔ ∀ a b, List.Sublist [a, b] as → given a → given b → name a ≠ name b := by
  simp [Apart, List.pairwise_iff_forall_sublist]

end Apart

section Children

variable {C : Filled → Prop} {path : ValuePath}

theorem exists_storeItems_iff {fs : List Filled}
    (h : ∀ f ∈ fs, ∀ path, (∃ t, f.store path = .ok t) ↔ C f) (position : Nat) :
    (∃ values, storeItems path position fs = .ok values) ↔ ∀ f ∈ fs, C f := by
  induction fs generalizing position with
  | nil => simp [storeItems]
  | cons f rest ih =>
    obtain ⟨hf, hr⟩ := List.forall_mem_cons.mp h
    rw [List.forall_mem_cons, ← hf (path.index position), ← ih hr (position + 1), storeItems]
    cases f.store (path.index position) with
    | error e => simp
    | ok value => cases storeItems path (position + 1) rest <;> simp

theorem exists_storeMembers_iff {fs : List Filled}
    (h : ∀ f ∈ fs, ∀ path, (∃ t, f.store path = .ok t) ↔ C f) :
    (∃ values, storeMembers path fs = .ok values) ↔ ∀ f ∈ fs, C f := by
  induction fs with
  | nil => simp [storeMembers]
  | cons f rest ih =>
    obtain ⟨hf, hr⟩ := List.forall_mem_cons.mp h
    rw [List.forall_mem_cons, ← hf path, ← ih hr, storeMembers]
    cases f.store path with
    | error e => simp
    | ok value => cases storeMembers path rest <;> simp

theorem exists_storeSlots_cons {taken : List String} {slot : Slot Filled}
    {rest : List (Slot Filled)} (hp : slot.content.Present) :
    (∃ entries, storeSlots path taken (slot :: rest) = .ok entries) ↔
      (∃ t, slot.content.store (path.member slot.name) = .ok t) ∧ slot.stored ∉ taken ∧
        ∃ entries, storeSlots path (slot.stored :: taken) rest = .ok entries := by
  rw [storeSlots]
  cases hstore : slot.content.store (path.member slot.name) with
  | error e => simp
  | ok value =>
    obtain ⟨t, rfl⟩ := Option.ne_none_iff_exists'.mp (hp.stores _ _ hstore)
    by_cases htaken : slot.stored ∈ taken
    · simp [htaken]
    · cases storeSlots path (slot.stored :: taken) rest <;> simp [htaken]

theorem exists_storeEntries_cons {keys : Option Transformer} {taken : List String}
    {entry : String × Filled} {rest : List (String × Filled)} (hp : entry.2.Present) :
    (∃ stored, storeEntries path keys taken (entry :: rest) = .ok stored) ↔
      (∃ t, entry.2.store (path.member entry.1) = .ok t) ∧
        ∃ key, encodeWith keys (.string entry.1) = .string key ∧ key ∉ taken ∧
          ∃ stored, storeEntries path keys (key :: taken) rest = .ok stored := by
  rw [storeEntries]
  cases hstore : entry.2.store (path.member entry.1) with
  | error e => simp
  | ok value =>
    obtain ⟨t, rfl⟩ := Option.ne_none_iff_exists'.mp (hp.stores _ _ hstore)
    cases hkey : encodeWith keys (.string entry.1) with
    | string key =>
      by_cases htaken : key ∈ taken
      · simp [storedKey, hkey, htaken]
      · cases hrest : storeEntries path keys (key :: taken) rest <;>
          simp [storedKey, hkey, htaken, hrest]
    | _ => simp [storedKey, hkey]

/-- The slots can be stored if each can and none needs a name that is taken by then. -/
theorem exists_storeSlots_iff {slots : List (Slot Filled)}
    (h : ∀ slot ∈ slots, ∀ path, (∃ t, slot.content.store path = .ok t) ↔ C slot.content)
    (owned : ∀ slot ∈ slots, slot.content.Owned) (taken : List String) :
    (∃ entries, storeSlots path taken slots = .ok entries) ↔
      (∀ slot ∈ slots, C slot.content) ∧
        Apart (fun slot => slot.content.Present) Slot.stored taken slots := by
  induction slots generalizing taken with
  | nil => simp [storeSlots]
  | cons slot rest ih =>
    obtain ⟨hs, hr⟩ := List.forall_mem_cons.mp h
    obtain ⟨ho, hor⟩ := List.forall_mem_cons.mp owned
    rw [List.forall_mem_cons, ← hs (path.member slot.name), apart_cons]
    rcases ho.absent_or_present with ha | hp
    · have hstore : slot.content.store (path.member slot.name) = .ok none := by rw [ha, store]
      have habsent : ¬ slot.content.Present := ha ▸ id
      simp [storeSlots, hstore, habsent, ih hr hor]
    · rw [exists_storeSlots_cons hp, ih hr hor]
      simp only [hp, forall_const, not_true_eq_false, false_implies, and_true]
      tauto

/-- The entries can be stored if each can, under a string that is not taken by then. -/
theorem exists_storeEntries_iff {keys : Option Transformer} {entries : List (String × Filled)}
    (h : ∀ entry ∈ entries, ∀ path, (∃ t, entry.2.store path = .ok t) ↔ C entry.2)
    (owned : ∀ entry ∈ entries, entry.2.Owned) (taken : List String) :
    (∃ stored, storeEntries path keys taken entries = .ok stored) ↔
      (∀ entry ∈ entries, C entry.2) ∧
      (∀ entry ∈ entries, entry.2.Present →
        ∃ key, encodeWith keys (.string entry.1) = .string key) ∧
      Apart (fun entry => entry.2.Present) (fun entry => encodeWith keys (.string entry.1))
        (taken.map .string) entries := by
  induction entries generalizing taken with
  | nil => simp [storeEntries]
  | cons entry rest ih =>
    obtain ⟨hs, hr⟩ := List.forall_mem_cons.mp h
    obtain ⟨ho, hor⟩ := List.forall_mem_cons.mp owned
    rw [List.forall_mem_cons, List.forall_mem_cons, ← hs (path.member entry.1), apart_cons]
    rcases ho.absent_or_present with ha | hp
    · have hstore : entry.2.store (path.member entry.1) = .ok none := by rw [ha, store]
      have habsent : ¬ entry.2.Present := ha ▸ id
      simp only [storeEntries, hstore, habsent, ih hr hor, Except.ok.injEq, exists_eq', true_and,
        false_implies, not_false_eq_true, forall_const]
    · rw [exists_storeEntries_cons hp]
      simp only [hp, forall_const, not_true_eq_false, false_implies, and_true, ih hr hor,
        List.map_cons]
      constructor
      · rintro ⟨hstore, key, hkey, hfree, hclear, hkeys, hapart⟩
        refine ⟨⟨hstore, hclear⟩, ⟨⟨key, hkey⟩, hkeys⟩, ?_, hkey ▸ hapart⟩
        simpa [hkey] using hfree
      · rintro ⟨⟨hstore, hclear⟩, ⟨⟨key, hkey⟩, hkeys⟩, hfree, hapart⟩
        rw [hkey] at hapart
        exact ⟨hstore, key, hkey, by simpa [hkey] using hfree, hclear, hkeys, hapart⟩

end Children

theorem not_clash_map_iff {slots : List (Slot Filled)} :
    ¬ Clash (.map slots) ↔ Apart (fun slot => slot.content.Present) Slot.stored [] slots := by
  simp only [apart_nil_taken_iff, Clash, not_exists, not_and, ne_eq]

theorem not_clash_record_iff {keys : Option Transformer} {entries : List (String × Filled)} :
    ¬ Clash (.record keys entries) ↔
      (∀ entry ∈ entries, entry.2.Present →
        ∃ key, encodeWith keys (.string entry.1) = .string key) ∧
      Apart (fun entry => entry.2.Present) (fun entry => encodeWith keys (.string entry.1)) []
        entries := by
  simp only [apart_nil_taken_iff, Clash, not_or, not_exists, not_and, ne_eq, not_forall, not_not]

/-- A tree can be stored exactly if no node of it has a clash. -/
theorem exists_store_iff {filled : Filled} (owned : filled.Everywhere Owned) (path : ValuePath) :
    (∃ t, filled.store path = .ok t) ↔ filled.Everywhere fun node => ¬ node.Clash := by
  induction filled using Filled.induct generalizing path with
  | node filled ih =>
    obtain ⟨root, below⟩ := everywhere_iff.mp owned
    have each : ∀ child ∈ filled.children, ∀ path,
        (∃ t, child.store path = .ok t) ↔ child.Everywhere fun node => ¬ node.Clash :=
      fun child hc path => ih child hc (below child hc) path
    have childOwned : ∀ child ∈ filled.children, child.Owned :=
      fun child hc => (below child hc).root
    rw [everywhere_iff]
    cases filled with
    | absent => exact ⟨fun _ => ⟨id, nofun⟩, fun _ => ⟨none, rfl⟩⟩
    | scalar transformer v => exact ⟨fun _ => ⟨id, nofun⟩, fun _ => ⟨_, rfl⟩⟩
    | extended filled rest => cases root
    | list items =>
      rw [children] at each
      rw [store_list, exists_map_ok_iff, exists_storeItems_iff each]
      simp [Clash, children]
    | set members =>
      rw [children] at each
      rw [store_set, exists_map_ok_iff, exists_storeMembers_iff each]
      simp [Clash, children]
    | map slots =>
      rw [children, List.forall_mem_map] at each childOwned
      rw [store_map, exists_map_ok_iff, exists_storeSlots_iff each childOwned, not_clash_map_iff,
        children, List.forall_mem_map, and_comm]
    | record keys entries =>
      rw [children, List.forall_mem_map] at each childOwned
      rw [store_record, exists_map_ok_iff, exists_storeEntries_iff each childOwned,
        not_clash_record_iff, children, List.forall_mem_map, List.map_nil, and_comm]

theorem store_error_iff {filled : Filled} (owned : filled.Everywhere Owned) (path : ValuePath) :
    (∃ e, filled.store path = .error e) ↔ ∃ node, Within node filled ∧ node.Clash := by
  have hok := exists_store_iff owned path
  have hclash : (∃ node, Within node filled ∧ node.Clash) ↔
      ¬ filled.Everywhere fun node => ¬ node.Clash := by
    simp [Everywhere]
  rw [hclash, ← hok]
  cases filled.store path <;> simp

end Filled
end ItemShape
