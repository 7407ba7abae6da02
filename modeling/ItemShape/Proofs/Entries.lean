import ItemShape.Entries
import ItemShape.Proofs.Lists
import Mathlib.Data.List.Nodup
import Mathlib.Data.List.Perm.Subperm

/-!
# ItemShape.Proofs.Entries

Entries seen through `get?` and `names`. Under distinct names `get?` and membership say the same
(`mem_of_get?`, `get?_of_mem`), and inserting a new name is appending (`insert_of_not_mem`).

Entries are related in order (`Rel`), or in any order (`Matches`), which is the same as being
related name by name (`Matches.get?`, `matches_of_get?`).
-/

namespace ItemShape
namespace Entries

variable {α : Type}

@[simp] theorem names_cons (entry : String × α) (entries : List (String × α)) :
    names (entry :: entries) = entry.1 :: names entries := rfl

@[simp] theorem names_append (entries others : List (String × α)) :
    names (entries ++ others) = names entries ++ names others := by
  simp [names]

theorem mem_names {name : String} {entries : List (String × α)} :
    name ∈ names entries ↔ ∃ value, (name, value) ∈ entries := by
  simp [names]

theorem mem_names_of_mem {entry : String × α} {entries : List (String × α)}
    (h : entry ∈ entries) : entry.1 ∈ names entries :=
  mem_names.mpr ⟨entry.2, h⟩

theorem distinct_cons {entry : String × α} {entries : List (String × α)} :
    Distinct (entry :: entries) ↔ entry.1 ∉ names entries ∧ Distinct entries := by
  simp [Distinct]

theorem Distinct.sublist {entries others : List (String × α)} (h : Distinct others)
    (hs : List.Sublist entries others) : Distinct entries :=
  List.Nodup.sublist (hs.map Prod.fst) h

/-- Distinct names that are among no more others are all of them. -/
theorem names_subset_of_length_le {β : Type} {entries : List (String × α)}
    {others : List (String × β)} (hd : Distinct entries) (hs : names entries ⊆ names others)
    (hl : others.length ≤ entries.length) : names others ⊆ names entries := by
  have hp : List.Perm (names entries) (names others) :=
    (List.Nodup.subperm hd hs).perm_of_length_le (by simpa [names] using hl)
  exact hp.symm.subset

theorem forall₂_of_names_eq {β : Type} {entries : List (String × α)}
    {others : List (String × β)} (h : names entries = names others) :
    List.Forall₂ (fun entry other => entry.1 = other.1) entries others :=
  map_eq_map_iff.mp h

theorem names_eq_of_forall₂ {β : Type} {entries : List (String × α)}
    {others : List (String × β)}
    (h : List.Forall₂ (fun entry other => entry.1 = other.1) entries others) :
    names entries = names others :=
  map_eq_map_iff.mpr h

/-! ## Looking names up -/

theorem get?_cons_self (entry : String × α) (entries : List (String × α)) :
    get? entry.1 (entry :: entries) = some entry.2 := by
  simp [get?]

theorem get?_cons_ne {name : String} {entry : String × α} (h : entry.1 ≠ name)
    (entries : List (String × α)) : get? name (entry :: entries) = get? name entries := by
  simp [get?, h]

theorem mem_of_get? {name : String} {value : α} {entries : List (String × α)}
    (h : get? name entries = some value) : (name, value) ∈ entries := by
  induction entries with
  | nil => cases h
  | cons entry rest ih =>
    by_cases hn : entry.1 = name
    · subst hn
      rw [get?_cons_self] at h
      cases h
      exact List.mem_cons_self
    · rw [get?_cons_ne hn] at h
      exact List.mem_cons_of_mem _ (ih h)

theorem get?_of_mem {name : String} {value : α} {entries : List (String × α)}
    (hd : Distinct entries) (h : (name, value) ∈ entries) : get? name entries = some value := by
  induction entries with
  | nil => simp at h
  | cons entry rest ih =>
    rw [distinct_cons] at hd
    rcases List.mem_cons.mp h with rfl | hr
    · exact get?_cons_self (name, value) rest
    · have hn : entry.1 ≠ name := by
        rintro rfl
        exact hd.1 (mem_names.mpr ⟨value, hr⟩)
      rw [get?_cons_ne hn]
      exact ih hd.2 hr

theorem get?_eq_none_iff {name : String} {entries : List (String × α)} :
    get? name entries = none ↔ name ∉ names entries := by
  induction entries with
  | nil => exact iff_of_true rfl List.not_mem_nil
  | cons entry rest ih =>
    by_cases hn : entry.1 = name
    · subst hn
      simp [get?_cons_self]
    · simp [get?_cons_ne hn, ih, Ne.symm hn]

theorem exists_get?_iff {name : String} {entries : List (String × α)} :
    (∃ value, get? name entries = some value) ↔ name ∈ names entries := by
  rw [← not_iff_not, ← get?_eq_none_iff, Option.eq_none_iff_forall_ne_some]
  simp

/-- Dropping names does not change what the other names stand for. -/
theorem get?_filter {name : String} (p : String → Bool) (entries : List (String × α)) :
    get? name (entries.filter fun entry => p entry.1) =
      if p name then get? name entries else none := by
  induction entries with
  | nil => exact (ite_self none).symm
  | cons entry rest ih =>
    rw [List.filter_cons]
    cases hp : p entry.1 with
    | true =>
      rw [if_pos rfl]
      by_cases hn : entry.1 = name
      · subst hn
        rw [get?_cons_self, get?_cons_self, if_pos hp]
      · rw [get?_cons_ne hn, get?_cons_ne hn, ih]
    | false =>
      rw [if_neg Bool.false_ne_true, ih]
      by_cases hn : entry.1 = name
      · subst hn
        rw [hp]
        rfl
      · rw [get?_cons_ne hn]

theorem get?_map {β : Type} (f : String → α → β) (name : String) (entries : List (String × α)) :
    get? name (entries.map fun entry => (entry.1, f entry.1 entry.2)) =
      (get? name entries).map (f name) := by
  induction entries with
  | nil => rfl
  | cons entry rest ih =>
    rw [List.map_cons]
    by_cases hn : entry.1 = name
    · subst hn
      rw [get?_cons_self (entry.1, _), get?_cons_self]
      rfl
    · have hn' : (entry.1, f entry.1 entry.2).1 ≠ name := hn
      rw [get?_cons_ne hn', get?_cons_ne hn, ih]

/-- Entries that all have a counterpart among no more others, under their own names, are the
counterparts of all the others. -/
theorem exists_get?_of_length_le {β : Type} (V : α → β → Prop) {entries : List (String × α)}
    {others : List (String × β)} (hd : Distinct entries) (hd' : Distinct others)
    (hl : others.length ≤ entries.length)
    (h : ∀ entry ∈ entries, ∃ w, get? entry.1 others = some w ∧ V entry.2 w) :
    ∀ other ∈ others, ∃ v, get? other.1 entries = some v ∧ V v other.2 := by
  intro other ho
  have subset : names entries ⊆ names others := by
    intro name hn
    obtain ⟨v, hv⟩ := mem_names.mp hn
    obtain ⟨w, hw, -⟩ := h _ hv
    exact exists_get?_iff.mp ⟨w, hw⟩
  have back : names others ⊆ names entries := names_subset_of_length_le hd subset hl
  obtain ⟨v, hv⟩ := exists_get?_iff.mpr (back (mem_names_of_mem ho))
  obtain ⟨w, hw, hvw⟩ := h _ (mem_of_get? hv)
  rw [get?_of_mem hd' ho] at hw
  cases hw
  exact ⟨v, hv, hvw⟩

theorem contains_iff {name : String} {entries : List (String × α)} :
    contains name entries = true ↔ name ∈ names entries := by
  rw [contains, Option.isSome_iff_exists, exists_get?_iff]

/-! ## Inserting -/

theorem insert_of_not_mem {name : String} {value : α} {entries : List (String × α)}
    (h : name ∉ names entries) : insert name value entries = entries ++ [(name, value)] := by
  induction entries with
  | nil => rfl
  | cons entry rest ih =>
    rw [names_cons, List.mem_cons, not_or] at h
    simp [insert, Ne.symm h.1, ih h.2]

theorem mem_insert {name : String} {value : α} {entries : List (String × α)}
    {entry : String × α} (h : entry ∈ insert name value entries) :
    entry = (name, value) ∨ entry ∈ entries := by
  induction entries with
  | nil => simpa [insert] using h
  | cons first rest ih =>
    rw [insert] at h
    split at h
    · rename_i hn
      rcases List.mem_cons.mp h with rfl | hr
      · exact .inl (by rw [hn])
      · exact .inr (List.mem_cons_of_mem _ hr)
    · rcases List.mem_cons.mp h with rfl | hr
      · exact .inr List.mem_cons_self
      · exact (ih hr).imp_right (List.mem_cons_of_mem _)

theorem get?_insert_self {name : String} {value : α} {entries : List (String × α)} :
    get? name (insert name value entries) = some value := by
  induction entries with
  | nil => exact get?_cons_self (name, value) []
  | cons entry rest ih =>
    rw [insert]
    split
    · rename_i hn
      simp [get?, hn]
    · rename_i hn
      exact (get?_cons_ne hn _).trans ih

theorem get?_insert_ne {name other : String} (h : name ≠ other) {value : α}
    {entries : List (String × α)} : get? other (insert name value entries) = get? other entries := by
  induction entries with
  | nil => exact get?_cons_ne h []
  | cons entry rest ih =>
    rw [insert]
    split
    · rename_i hn
      rw [get?_cons_ne (hn ▸ h), get?_cons_ne (hn ▸ h)]
    · simp only [get?, ih]

theorem mem_names_insert {name other : String} {value : α} {entries : List (String × α)} :
    other ∈ names (insert name value entries) ↔ other = name ∨ other ∈ names entries := by
  rw [← exists_get?_iff, ← exists_get?_iff]
  by_cases hn : name = other
  · subst hn
    simp [get?_insert_self]
  · rw [get?_insert_ne hn]
    simp [Ne.symm hn]

theorem distinct_insert {name : String} {value : α} {entries : List (String × α)}
    (hd : Distinct entries) : Distinct (insert name value entries) := by
  induction entries with
  | nil => exact List.nodup_singleton name
  | cons entry rest ih =>
    rw [distinct_cons] at hd
    rw [insert]
    split
    · exact distinct_cons.mpr hd
    · rename_i hn
      refine distinct_cons.mpr ⟨fun hm => ?_, ih hd.2⟩
      rcases mem_names_insert.mp hm with h | h
      · exact hn h
      · exact hd.1 h

/-! ## Entries of pairs -/

theorem mem_ofList {pairs : List (String × α)} {entry : String × α} (h : entry ∈ ofList pairs) :
    entry ∈ pairs := by
  have fold : ∀ (rest done : List (String × α)),
      entry ∈ rest.foldl (fun entries pair => insert pair.1 pair.2 entries) done →
        entry ∈ done ∨ entry ∈ rest := by
    intro rest
    induction rest with
    | nil => intro done h; exact .inl h
    | cons pair rest ih =>
      intro done h
      rcases ih _ h with h | h
      · rcases mem_insert h with rfl | h
        · exact .inr List.mem_cons_self
        · exact .inl h
      · exact .inr (List.mem_cons_of_mem _ h)
  simpa using fold pairs [] h

theorem distinct_ofList (pairs : List (String × α)) : Distinct (ofList pairs) := by
  have fold : ∀ (rest done : List (String × α)), Distinct done →
      Distinct (rest.foldl (fun entries pair => insert pair.1 pair.2 entries) done) := by
    intro rest
    induction rest with
    | nil => intro done h; exact h
    | cons pair rest ih => intro done h; exact ih _ (distinct_insert h)
  exact fold pairs [] List.nodup_nil

/-! ## Related entries -/

section Related

variable {β : Type}

/-- The same names in the same order, with related values. -/
def Rel (V : α → β → Prop) : List (String × α) → List (String × β) → Prop :=
  List.Forall₂ fun entry other => entry.1 = other.1 ∧ V entry.2 other.2

/-- The same names in some order, with related values. -/
def Matches (V : α → β → Prop) (entries : List (String × α)) (others : List (String × β)) : Prop :=
  ∃ aligned, Rel V entries aligned ∧ aligned.Perm others

variable {V : α → β → Prop} {entries : List (String × α)} {others : List (String × β)}

theorem Rel.names_eq (h : Rel V entries others) : names entries = names others :=
  names_eq_of_forall₂ (h.imp fun _ _ h => h.1)

theorem Rel.get? (h : Rel V entries others) (name : String) :
    Option.Rel V (Entries.get? name entries) (Entries.get? name others) := by
  induction h with
  | nil => exact .none
  | @cons entry other _ _ hv _ ih =>
    obtain ⟨hn, hv⟩ := hv
    by_cases he : entry.1 = name
    · simp only [Entries.get?, ← hn, he, if_true]
      exact .some hv
    · simp only [Entries.get?, ← hn, he, if_false]
      exact ih

theorem Rel.insert (h : Rel V entries others) (name : String) {v : α} {w : β} (hv : V v w) :
    Rel V (Entries.insert name v entries) (Entries.insert name w others) := by
  induction h with
  | nil => exact .cons ⟨rfl, hv⟩ .nil
  | @cons entry other _ _ he hr ih =>
    by_cases hn : entry.1 = name
    · simp only [Entries.insert, ← he.1, hn, if_true]
      exact .cons ⟨rfl, hv⟩ hr
    · simp only [Entries.insert, ← he.1, hn, if_false]
      exact .cons ⟨rfl, he.2⟩ ih

theorem rel_eq_iff {entries others : List (String × α)} :
    Rel Eq entries others ↔ entries = others := by
  rw [Rel, ← List.forall₂_eq_eq_eq]
  simp only [Prod.ext_iff]

theorem Distinct.perm {entries others : List (String × α)} (hd : Distinct entries)
    (h : entries.Perm others) : Distinct others :=
  (h.map Prod.fst).nodup_iff.mp hd

theorem Rel.distinct (h : Rel V entries others) (hd : Distinct entries) : Distinct others := by
  have hd : (names entries).Nodup := hd
  rw [h.names_eq] at hd
  exact hd

theorem Rel.matches (h : Rel V entries others) : Matches V entries others :=
  ⟨others, h, List.Perm.refl _⟩

/-- Under distinct names the order does not count. -/
theorem get?_perm {entries others : List (String × α)} (hd : Distinct entries)
    (h : entries.Perm others) (name : String) :
    Entries.get? name entries = Entries.get? name others := by
  cases hg : Entries.get? name entries with
  | some v => exact (get?_of_mem (hd.perm h) (h.mem_iff.mp (mem_of_get? hg))).symm
  | none =>
    have hnot : name ∉ names others := fun hm =>
      get?_eq_none_iff.mp hg ((h.map Prod.fst).mem_iff.mpr hm)
    exact (get?_eq_none_iff.mpr hnot).symm

theorem Matches.get? (h : Matches V entries others) (hd : Distinct entries) (name : String) :
    Option.Rel V (Entries.get? name entries) (Entries.get? name others) := by
  obtain ⟨aligned, hrel, hperm⟩ := h
  rw [← get?_perm (hrel.distinct hd) hperm name]
  exact hrel.get? name

/-- Entries of distinct names match if they are related name by name. -/
theorem matches_of_get? (hd : Distinct entries) (hd' : Distinct others)
    (h : ∀ name, Option.Rel V (Entries.get? name entries) (Entries.get? name others)) :
    Matches V entries others := by
  induction entries generalizing others with
  | nil =>
    have hnone : others = [] := by
      cases others with
      | nil => rfl
      | cons other rest =>
        have hfirst := h other.1
        rw [get?_cons_self] at hfirst
        cases hfirst
    subst hnone
    exact ⟨[], .nil, List.Perm.refl _⟩
  | cons entry rest ih =>
    obtain ⟨name, v⟩ := entry
    obtain ⟨hname, hrest⟩ := distinct_cons.mp hd
    have hfirst := h name
    rw [get?_cons_self (name, v)] at hfirst
    generalize hw : Entries.get? name others = found at hfirst
    cases hfirst with
    | @some _ w hvw =>
      obtain ⟨earlier, later, rfl⟩ := List.append_of_mem (mem_of_get? hw)
      have hperm : ((name, w) :: (earlier ++ later)).Perm (earlier ++ (name, w) :: later) :=
        List.perm_middle.symm
      have hd' := hd'.perm hperm.symm
      obtain ⟨hfresh, hothers⟩ := distinct_cons.mp hd'
      have hmatch : Matches V rest (earlier ++ later) := by
        refine ih hrest hothers fun other => ?_
        by_cases hn : name = other
        · subst hn
          rw [get?_eq_none_iff.mpr hname, get?_eq_none_iff.mpr hfresh]
          exact .none
        · have hother := h other
          rw [← get?_perm hd' hperm, get?_cons_ne hn, get?_cons_ne hn] at hother
          exact hother
      obtain ⟨aligned, hrel, hp⟩ := hmatch
      exact ⟨(name, w) :: aligned, .cons ⟨rfl, hvw⟩ hrel, (hp.cons _).trans hperm⟩

end Related

end Entries
end ItemShape
