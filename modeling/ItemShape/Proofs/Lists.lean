import Mathlib.Data.List.Forall2
import Mathlib.Data.List.Perm.Subperm

/-!
# ItemShape.Proofs.Lists

Lists related member by member (`List.Forall₂`), where what is known of a pair depends on the
members being in the lists.
-/

namespace ItemShape

variable {α β γ : Type}

theorem forall₂_comp {R : α → β → Prop} {S : β → γ → Prop} {T : α → γ → Prop} {as : List α}
    {bs : List β} {cs : List γ} (h : ∀ a ∈ as, ∀ b c, R a b → S b c → T a c)
    (hab : List.Forall₂ R as bs) (hbc : List.Forall₂ S bs cs) : List.Forall₂ T as cs := by
  induction hab generalizing cs with
  | nil =>
    cases hbc
    exact .nil
  | cons hr _ ih =>
    cases hbc with
    | cons hs hbc =>
      exact .cons (h _ List.mem_cons_self _ _ hr hs)
        (ih (fun a ha => h a (List.mem_cons_of_mem _ ha)) hbc)

theorem forall₂_imp {R S : α → β → Prop} {as : List α} {bs : List β}
    (h : ∀ a ∈ as, ∀ b ∈ bs, R a b → S a b) (hab : List.Forall₂ R as bs) :
    List.Forall₂ S as bs := by
  induction hab with
  | nil => exact .nil
  | cons hr _ ih =>
    refine .cons (h _ List.mem_cons_self _ List.mem_cons_self hr) (ih fun a ha b hb => ?_)
    exact h a (List.mem_cons_of_mem _ ha) b (List.mem_cons_of_mem _ hb)

theorem forall₂_flip {R : α → β → Prop} {S : β → α → Prop} {as : List α} {bs : List β}
    (h : ∀ a ∈ as, ∀ b ∈ bs, R a b → S b a) (hab : List.Forall₂ R as bs) :
    List.Forall₂ S bs as :=
  List.Forall₂.flip (forall₂_imp (S := flip S) h hab)

theorem forall₂_right {P : β → Prop} {as : List α} {bs : List β}
    (h : List.Forall₂ (fun _ b => P b) as bs) : ∀ b ∈ bs, P b := by
  induction h with
  | nil => intro b hb; cases hb
  | cons hp _ ih => exact List.forall_mem_cons.mpr ⟨hp, ih⟩

theorem exists_of_forall₂_left {R : α → β → Prop} {as : List α} {bs : List β}
    (h : List.Forall₂ R as bs) : ∀ a ∈ as, ∃ b ∈ bs, R a b := by
  induction h with
  | nil => intro a ha; cases ha
  | cons hr _ ih =>
    intro a ha
    rcases List.mem_cons.mp ha with rfl | ha
    · exact ⟨_, List.mem_cons_self, hr⟩
    · obtain ⟨b, hb, hr⟩ := ih a ha
      exact ⟨b, List.mem_cons_of_mem _ hb, hr⟩

theorem exists_of_forall₂_right {R : α → β → Prop} {as : List α} {bs : List β}
    (h : List.Forall₂ R as bs) : ∀ b ∈ bs, ∃ a ∈ as, R a b :=
  exists_of_forall₂_left h.flip

theorem exists_getElem?_of_forall₂ {R : α → β → Prop} {as : List α} {bs : List β}
    (h : List.Forall₂ R as bs) {i : Nat} {a : α} (ha : as[i]? = some a) :
    ∃ b, bs[i]? = some b ∧ R a b := by
  induction h generalizing i with
  | nil => cases ha
  | cons hr _ ih =>
    cases i with
    | zero =>
      cases ha
      exact ⟨_, rfl, hr⟩
    | succ i => exact ih ha

theorem map_eq_map_iff {f : α → γ} {g : β → γ} {as : List α} {bs : List β} :
    as.map f = bs.map g ↔ List.Forall₂ (fun a b => f a = g b) as bs := by
  rw [← List.forall₂_eq_eq_eq, List.forall₂_map_left_iff, List.forall₂_map_right_iff]

theorem map_eq_self_iff {f : α → α} {as : List α} : as.map f = as ↔ ∀ a ∈ as, f a = a := by
  have h : as.map f = as.map id ↔ ∀ a ∈ as, f a = id a := List.map_inj_left
  rwa [List.map_id] at h

/-- Listing the members of a list once makes it no shorter exactly if it has no duplicates. -/
theorem length_eq_iff_nodup {as bs : List α} (hd : bs.Nodup) (h : ∀ a, a ∈ bs ↔ a ∈ as) :
    bs.length = as.length ↔ as.Nodup := by
  constructor
  · intro hl
    have hp : bs.Perm as :=
      (hd.subperm fun a ha => (h a).mp ha).perm_of_length_le (Nat.le_of_eq hl.symm)
    exact hp.nodup_iff.mp hd
  · intro ha
    exact ((List.perm_ext_iff_of_nodup hd ha).mpr h).length_eq

theorem exists_mem_zip_left {as : List α} {bs : List β} (hl : as.length = bs.length) {a : α}
    (ha : a ∈ as) : ∃ b, (a, b) ∈ as.zip bs := by
  obtain ⟨i, hi, rfl⟩ := List.mem_iff_getElem.mp ha
  refine ⟨bs[i], List.mem_iff_getElem.mpr ⟨i, ?_, List.getElem_zip⟩⟩
  rw [List.length_zip]
  omega

theorem exists_mem_zip_right {as : List α} {bs : List β} (hl : as.length = bs.length) {b : β}
    (hb : b ∈ bs) : ∃ a, (a, b) ∈ as.zip bs := by
  obtain ⟨i, hi, rfl⟩ := List.mem_iff_getElem.mp hb
  refine ⟨as[i], List.mem_iff_getElem.mpr ⟨i, ?_, List.getElem_zip⟩⟩
  rw [List.length_zip]
  omega

end ItemShape
