import ItemShape.Proofs.Parse.Fill
import ItemShape.Proofs.Parse.Filled
import ItemShape.Proofs.Parse.Store

/-!
# ItemShape.Proofs.Parse.Present

Trees that hold a value of their own (`Filled.Present`): they have a filled value, and where they
can be stored they store one. Without an extension a node is filled with such a tree, or it is
absent because nothing was given to it (`fillNode_present_or_absent`). What is said of such trees
can be shown kind by kind (`FillRules.fillNode`).
-/

namespace ItemShape
namespace Filled

/-- Neither absent nor left to an extension. -/
def Present : Filled → Prop
  | .absent | .extended _ _ => False
  | _ => True

theorem Present.exists_value {filled : Filled} (h : filled.Present) :
    ∃ w, filled.value? = some w := by
  cases filled with
  | absent => cases h
  | extended _ _ => cases h
  | _ => exact ⟨_, rfl⟩

theorem Present.stores {filled : Filled} (h : filled.Present) : filled.Stores := by
  intro path t ht
  cases filled with
  | absent => cases h
  | extended _ _ => cases h
  | scalar transformer v =>
    cases ht
    exact Option.some_ne_none _
  | _ =>
    simp only [store] at ht
    split at ht
    · cases ht
    · cases ht
      exact Option.some_ne_none _

end Filled

theorem fillKind_present {kind : Kind Schema} {transformer : Option Transformer}
    {extension : Option Extension} {settings : Settings} {scope : Option LinkContext} {v : Value}
    {filled : Filled}
    (member : ∀ members, kind = .anyOf members → ∀ member ∈ members,
      fillNode member extension settings scope (some v) = .ok filled → filled.Present)
    (h : fillKind kind transformer extension settings scope v = .ok filled) : filled.Present := by
  cases kind with
  | scalar kind =>
    obtain ⟨_, rfl⟩ := fillKind_scalar_ok_iff.mp h
    trivial
  | set elements =>
    obtain ⟨_, _, _, rfl, _⟩ := fillKind_set_ok h
    trivial
  | list elements =>
    obtain ⟨_, _, _, rfl, _⟩ := fillKind_list_ok h
    trivial
  | record keys elements =>
    obtain ⟨_, _, _, rfl, _⟩ := fillKind_record_ok h
    trivial
  | anyOf members =>
    obtain ⟨other, hm, hf⟩ := fillFirst_eq_some (fillKind_anyOf_ok_iff.mp h)
    exact member members rfl other hm hf
  | map attributes =>
    obtain ⟨_, _, _, rfl, _⟩ := fillKind_attributes_ok rfl h
    trivial
  | item attributes =>
    obtain ⟨_, _, _, rfl, _⟩ := fillKind_attributes_ok rfl h
    trivial

theorem fillNode_present_or_absent {schema : Schema} {settings : Settings}
    {scope : Option LinkContext} {input : Option Value} {filled : Filled}
    (h : fillNode schema none settings scope input = .ok filled) :
    filled.Present ∨ input = none ∧ filled = .absent := by
  induction schema using Schema.induct generalizing scope input filled with
  | node props kind ih =>
    cases hr : resolved props settings scope input with
    | none =>
      obtain ⟨_, rfl⟩ := (fillNode_absent_ok_iff rfl hr).mp h
      cases input with
      | none => exact .inr ⟨rfl, rfl⟩
      | some v => cases hr
    | some v =>
      obtain ⟨hk, _⟩ := (fillNode_present_ok_iff rfl hr).mp h
      -- The hypothesis is for unions alone, whose tree is that of a member.
      refine .inl (fillKind_present (fun members hkind member hm hf => ?_) hk)
      subst hkind
      rcases ih member hm hf with hp | ⟨hn, _⟩
      · exact hp
      · cases hn

theorem fillNode_present {schema : Schema} {settings : Settings} {scope : Option LinkContext}
    {v : Value} {filled : Filled}
    (h : fillNode schema none settings scope (some v) = .ok filled) : filled.Present := by
  rcases fillNode_present_or_absent h with hp | ⟨hn, _⟩
  · exact hp
  · cases hn

/-! ## Trees, kind by kind -/

/-- The slot of an attribute, with a tree that `P` holds of, or with nothing in it. -/
structure SlotWith (P : Schema → Filled → Prop) (entry : String × Schema) (slot : Slot Filled) :
    Prop where
  name : slot.name = entry.1
  stored : slot.stored = entry.2.storedName entry.1
  content : slot.content = .absent ∨ slot.content.Present ∧ P entry.2 slot.content

section Slots

variable {P : Schema → Filled → Prop} {mode : Mode} {kind : Kind Schema}
  {attributes : List (String × Schema)} {slots : List (Slot Filled)}
  (hd : Entries.Distinct attributes)
  (hs : List.Forall₂ (SlotWith P) (kind.parsed mode attributes) slots)

include hd hs

theorem get?_slotValues_of_slotWith {entry : String × Schema} {slot : Slot Filled}
    (hm : slot ∈ slots) (hslot : SlotWith P entry slot) :
    Entries.get? entry.1 (Filled.slotValues slots) = slot.content.value? := by
  have hnames : slots.map Slot.name = Entries.names (kind.parsed mode attributes) :=
    map_eq_map_iff.mpr (hs.flip.imp fun _ _ h => h.name)
  rw [← hslot.name]
  refine Filled.get?_slotValues ?_ hm
  rw [hnames]
  exact hd.sublist (Kind.parsed_sublist kind mode attributes)

theorem exists_slot_of_value {entry : String × Schema} (hm : entry ∈ attributes) {v : Value}
    (hv : Entries.get? entry.1 (Filled.slotValues slots) = some v) :
    entry ∈ kind.parsed mode attributes ∧
      ∃ slot ∈ slots, SlotWith P entry slot ∧ slot.content.value? = some v := by
  obtain ⟨slot, hslot, hname, hvalue⟩ := Filled.exists_slot_of_mem (Entries.mem_of_get? hv)
  obtain ⟨other, hparsed, hother⟩ := exists_of_forall₂_right hs slot hslot
  have hsub := (Kind.parsed_sublist kind mode attributes).subset
  cases List.inj_on_of_nodup_map hd (hsub hparsed) hm (hother.name.symm.trans hname)
  exact ⟨hparsed, slot, hslot, hother, hvalue⟩

theorem exists_stored_of_value {path : ValuePath} {stored : List (String × Value)}
    (he : Filled.storeSlots path [] slots = .ok stored) {entry : String × Schema}
    (hm : entry ∈ attributes) {v : Value}
    (hv : Entries.get? entry.1 (Filled.slotValues slots) = some v) :
    ∃ content : Filled, ∃ place t, P entry.2 content ∧ content.value? = some v ∧
      content.store place = .ok (some t) ∧
        Entries.get? (entry.2.storedName entry.1) stored = some t := by
  obtain ⟨-, slot, hslot, h, hvalue⟩ := exists_slot_of_value hd hs hm hv
  rcases h.content with ha | ⟨present, content⟩
  · rw [ha] at hvalue
    cases hvalue
  · obtain ⟨place, t, ht, hget⟩ := Filled.get?_storeSlots he hslot present.stores
    rw [h.stored] at hget
    exact ⟨slot.content, place, t, content, hvalue, ht, hget⟩

end Slots

/-- `P` holds of the tree of each kind if it holds of the trees below. -/
structure FillRules (settings : Settings) (P : Schema → Filled → Prop) : Prop where
  scalar {props : Props} {kind : ScalarKind} {v : Value} (hm : scalarMatches kind v = true) :
    P (.mk props (.scalar kind)) (.scalar props.transformer v)
  set {props : Props} {elements : Schema} {fs : List Filled}
    (each : ∀ f ∈ fs, f.Present ∧ P elements f) : P (.mk props (.set elements)) (.set fs)
  list {props : Props} {elements : Schema} {fs : List Filled}
    (each : ∀ f ∈ fs, f.Present ∧ P elements f) : P (.mk props (.list elements)) (.list fs)
  record {props : Props} {keys elements : Schema} {fs : List (String × Filled)}
    (each : ∀ f ∈ fs, f.2.Present ∧ P elements f.2) :
    P (.mk props (.record keys elements)) (.record keys.transformer? fs)
  /-- The first member that accepts the value. -/
  anyOf {props : Props} {earlier later : List Schema} {member : Schema} {path : ValuePath}
    {scope : Option LinkContext} {v : Value} {filled : Filled}
    (rejected : ∀ other ∈ earlier, ∀ tree,
      fillNode other none (settings.at path) scope (some v) ≠ .ok tree)
    (accepts : fillNode member none (settings.at path) scope (some v) = .ok filled)
    (h : P member filled) : P (.mk props (.anyOf (earlier ++ member :: later))) filled
  /-- Maps and items. -/
  attributes {props : Props} {kind : Kind Schema} {attributes : List (String × Schema)}
    {slots : List (Slot Filled)} (declares : kind.attributes? = some attributes)
    (each : List.Forall₂ (SlotWith P) (kind.parsed settings.mode attributes) slots) :
    P (.mk props kind) (.map slots)

namespace FillRules

variable {P : Schema → Filled → Prop} {settings : Settings} {path : ValuePath}

theorem fillKind (rules : FillRules settings P) {props : Props} {kind : Kind Schema}
    (below : ∀ schema ∈ kind.children, ∀ path scope input filled,
      fillNode schema none (settings.at path) scope input = .ok filled →
        filled.Present ∧ P schema filled ∨ input = none ∧ filled = .absent)
    {scope : Option LinkContext} {v : Value} {filled : Filled}
    (h : ItemShape.fillKind kind props.transformer none (settings.at path) scope v = .ok filled) :
    P (.mk props kind) filled := by
  have child : ∀ schema ∈ kind.children, ∀ path {v filled},
      fillNode schema none (settings.at path) scope (some v) = .ok filled →
        filled.Present ∧ P schema filled := by
    intro schema hm path v filled h
    rcases below schema hm _ _ _ _ h with h | ⟨hn, _⟩
    · exact h
    · cases hn
  have named : ∀ attributes, kind.attributes? = some attributes → P (.mk props kind) filled := by
    intro attributes hk
    obtain ⟨input, slots, -, rfl, -, hs⟩ := fillKind_attributes_ok hk h
    refine rules.attributes hk (forall₂_imp (fun entry he slot _ hslot => ?_) hs)
    obtain ⟨place, context, hf⟩ := hslot.content
    have he := (Kind.parsed_sublist kind settings.mode attributes).subset he
    refine ⟨hslot.name, hslot.stored, ?_⟩
    rcases below entry.2 (Kind.mem_children hk he) place _ _ _ hf with h | ⟨_, ha⟩
    · exact .inr h
    · exact .inl ha
  cases kind with
  | scalar kind =>
    obtain ⟨hm, rfl⟩ := fillKind_scalar_ok_iff.mp h
    exact rules.scalar hm
  | set elements =>
    obtain ⟨members, fs, -, rfl, -, hs⟩ := fillKind_set_ok h
    refine rules.set fun f hf => ?_
    obtain ⟨member, _, hf⟩ := exists_of_forall₂_right hs f hf
    exact child elements List.mem_cons_self path hf
  | list elements =>
    obtain ⟨items, fs, -, rfl, hs⟩ := fillKind_list_ok h
    refine rules.list fun f hf => ?_
    obtain ⟨item, _, place, hf⟩ := exists_of_forall₂_right hs f hf
    exact child elements List.mem_cons_self place hf
  | record keys elements =>
    obtain ⟨input, fs, -, rfl, hs⟩ := fillKind_record_ok h
    refine rules.record fun f hf => ?_
    obtain ⟨entry, _, -, -, place, hf⟩ := exists_of_forall₂_right hs f hf
    exact child elements (by simp [Kind.children]) place hf
  | anyOf members =>
    obtain ⟨earlier, member, later, rfl, rejected, hf⟩ :=
      exists_first_of_fillFirst (fillKind_anyOf_ok_iff.mp h)
    have hm : member ∈ Kind.children (.anyOf (earlier ++ member :: later)) := by
      simp [Kind.children]
    exact rules.anyOf rejected hf (child member hm path hf).2
  | map attributes => exact named attributes rfl
  | item attributes => exact named attributes rfl

/-- What the rules give holds of every tree filled without an extension, unless it is absent. By
induction on the schema. -/
theorem fillNode (rules : FillRules settings P) {schema : Schema}
    {scope : Option LinkContext} {input : Option Value} {filled : Filled}
    (h : ItemShape.fillNode schema none (settings.at path) scope input = .ok filled) :
    filled.Present ∧ P schema filled ∨ input = none ∧ filled = .absent := by
  induction schema using Schema.induct generalizing path scope input filled with
  | node props kind ih =>
    rcases fillNode_present_or_absent h with present | absent
    · refine .inl ⟨present, ?_⟩
      cases hv : resolved props (settings.at path) scope input with
      | some v =>
        obtain ⟨hk, _⟩ := (fillNode_present_ok_iff rfl hv).mp h
        exact rules.fillKind (fun schema hm path scope input filled h => ih schema hm h) hk
      | none =>
        obtain ⟨_, rfl⟩ := (fillNode_absent_ok_iff rfl hv).mp h
        cases present
    · exact .inr absent

end FillRules

end ItemShape
