import ItemShape.Proofs.Value.Equal

/-!
# ItemShape.Proofs.Value.Alike

Equal values whose maps have distinct names (`Value.Alike`), which differ in the order of map
entries and the signs of zeros only. `alike_list_iff`, `alike_map_iff` and `alike_op_iff` take such
values apart; entries of maps match in any order (`Entries.Matches`). The other comparison does not
tell alike values apart on either side (`same_eq_of_alike`).
-/

namespace ItemShape
namespace Value

structure Alike (v w : Value) : Prop where
  distinct : v.DistinctNames
  distinct' : w.DistinctNames
  equal : v.equal w = true

variable {v w : Value}

theorem Alike.refl (hd : v.DistinctNames) : v.Alike v :=
  ⟨hd, hd, equal_refl hd⟩

theorem Alike.symm (h : v.Alike w) : w.Alike v :=
  ⟨h.distinct', h.distinct, equal_symm h.distinct h.distinct' h.equal⟩

/-! ## Lists, maps and operations -/

theorem alike_list_iff {vs : List Value} :
    Alike (.list vs) w ↔ ∃ ws, w = .list ws ∧ List.Forall₂ Alike vs ws := by
  constructor
  · rintro ⟨hd, hd', h⟩
    obtain ⟨ws, rfl, hs⟩ := equal_list_iff.mp h
    rw [distinctNames_list] at hd hd'
    exact ⟨ws, rfl, forall₂_imp (fun v hv w hw he => ⟨hd v hv, hd' w hw, he⟩) hs⟩
  · rintro ⟨ws, rfl, hs⟩
    refine ⟨distinctNames_list.mpr fun v hv => ?_, distinctNames_list.mpr fun w hw => ?_,
      equal_list_iff.mpr ⟨ws, rfl, hs.imp fun _ _ h => h.equal⟩⟩
    · obtain ⟨w, -, hvw⟩ := exists_of_forall₂_left hs v hv
      exact hvw.distinct
    · obtain ⟨v, -, hvw⟩ := exists_of_forall₂_right hs w hw
      exact hvw.distinct'

theorem alike_map_iff {entries : List (String × Value)} :
    Alike (.map entries) w ↔ ∃ others, w = .map others ∧ Entries.Distinct entries ∧
      Entries.Matches Alike entries others := by
  constructor
  · rintro ⟨hd, hd', h⟩
    have hback := equal_symm hd hd' h
    obtain ⟨others, rfl, -, hs⟩ := equal_map_iff.mp h
    obtain ⟨_, hmap, -, hs'⟩ := equal_map_iff.mp hback
    cases hmap
    rw [distinctNames_map] at hd hd'
    refine ⟨others, rfl, hd.1, Entries.matches_of_get? hd.1 hd'.1 fun name => ?_⟩
    cases hv : Entries.get? name entries with
    | some v =>
      have hm := Entries.mem_of_get? hv
      obtain ⟨w, hw, he⟩ := hs _ hm
      dsimp only at hw he
      rw [hw]
      exact .some ⟨hd.2 _ hm, hd'.2 _ (Entries.mem_of_get? hw), he⟩
    | none =>
      cases hw : Entries.get? name others with
      | none => exact .none
      | some w =>
        obtain ⟨v, hv', -⟩ := hs' _ (Entries.mem_of_get? hw)
        dsimp only at hv'
        rw [hv] at hv'
        cases hv'
  · rintro ⟨others, rfl, hd, aligned, hrel, hperm⟩
    have hd' := (hrel.distinct hd).perm hperm
    refine ⟨distinctNames_map.mpr ⟨hd, fun entry hm => ?_⟩,
      distinctNames_map.mpr ⟨hd', fun other hm => ?_⟩,
      equal_map_iff.mpr ⟨others, rfl, hrel.length_eq.trans hperm.length_eq, fun entry hm => ?_⟩⟩
    · obtain ⟨other, -, -, h⟩ := exists_of_forall₂_left hrel entry hm
      exact h.distinct
    · obtain ⟨entry, -, -, h⟩ := exists_of_forall₂_right hrel other (hperm.mem_iff.mpr hm)
      exact h.distinct'
    · obtain ⟨other, ho, hname, h⟩ := exists_of_forall₂_left hrel entry hm
      refine ⟨other.2, ?_, h.equal⟩
      rw [hname]
      exact Entries.get?_of_mem hd' (hperm.mem_iff.mp ho)

theorem alike_op_iff {operation : Operation Value} :
    Alike (.op operation) w ↔ ∃ other, w = .op other ∧ operation.Rel Alike other := by
  constructor
  · rintro ⟨hd, hd', h⟩
    obtain ⟨other, rfl, hr⟩ := equal_op_iff.mp h
    rw [distinctNames_op] at hd hd'
    refine ⟨other, rfl, ?_⟩
    cases hr with
    | add he => exact .add ⟨hd _ rfl, hd' _ rfl, he⟩
    | delete he => exact .delete ⟨hd _ rfl, hd' _ rfl, he⟩
    | set he => exact .set ⟨hd _ rfl, hd' _ rfl, he⟩
    | remove => exact .remove
    | get source hr =>
      cases hr with
      | none => exact .get source .none
      | some he => exact .get source (.some ⟨hd _ rfl, hd' _ rfl, he⟩)
  · rintro ⟨other, rfl, hr⟩
    cases hr with
    | add h => exact ⟨h.distinct, h.distinct', h.equal⟩
    | delete h => exact ⟨h.distinct, h.distinct', h.equal⟩
    | set h => exact ⟨h.distinct, h.distinct', h.equal⟩
    | remove => exact .refl trivial
    | get source hr =>
      cases hr with
      | none => exact .refl trivial
      | some h =>
        refine ⟨h.distinct, h.distinct', equal_op_iff.mpr ⟨_, rfl, .get source (.some h.equal)⟩⟩

/-- Both values are lists, of alike items, or neither is one. -/
theorem Alike.list_or (h : v.Alike w) :
    (∃ vs ws, v = .list vs ∧ w = .list ws ∧ List.Forall₂ Alike vs ws) ∨
      (∀ vs, v ≠ .list vs) ∧ ∀ ws, w ≠ .list ws := by
  by_cases hv : ∃ vs, v = .list vs
  · obtain ⟨vs, rfl⟩ := hv
    obtain ⟨ws, rfl, hs⟩ := alike_list_iff.mp h
    exact .inl ⟨vs, ws, rfl, rfl, hs⟩
  · refine .inr ⟨fun vs hn => hv ⟨vs, hn⟩, fun ws hn => hv ?_⟩
    subst hn
    obtain ⟨vs, hn, -⟩ := alike_list_iff.mp h.symm
    exact ⟨vs, hn⟩

/-- Both values are maps, or neither is one. -/
theorem Alike.map_or (h : v.Alike w) : (∃ entries others, v = .map entries ∧ w = .map others) ∨
    (∀ entries, v ≠ .map entries) ∧ ∀ others, w ≠ .map others := by
  by_cases hv : ∃ entries, v = .map entries
  · obtain ⟨entries, rfl⟩ := hv
    obtain ⟨others, rfl, -⟩ := alike_map_iff.mp h
    exact .inl ⟨entries, others, rfl, rfl⟩
  · refine .inr ⟨fun entries hn => hv ⟨entries, hn⟩, fun others hn => hv ?_⟩
    subst hn
    obtain ⟨entries, hn, -⟩ := alike_map_iff.mp h.symm
    exact ⟨entries, hn⟩

/-- The entries of alike maps, name by name. -/
theorem Alike.get? {entries others : List (String × Value)}
    (h : Alike (.map entries) (.map others)) (name : String) :
    Option.Rel Alike (Entries.get? name entries) (Entries.get? name others) := by
  obtain ⟨_, hmap, hd, hmatch⟩ := alike_map_iff.mp h
  cases hmap
  exact hmatch.get? hd name

theorem Alike.names_subset {entries others : List (String × Value)}
    (h : Alike (.map entries) (.map others)) : Entries.names entries ⊆ Entries.names others := by
  intro name hn
  obtain ⟨v, hv⟩ := Entries.exists_get?_iff.mpr hn
  have hget := h.get? name
  rw [hv] at hget
  cases hw : Entries.get? name others with
  | some w => exact Entries.exists_get?_iff.mp ⟨w, hw⟩
  | none =>
    rw [hw] at hget
    cases hget

/-! ## Sameness -/

theorem same_of_equal_of_same {u v w : Value} (h : u.equal v = true) (h' : v.same w = true) :
    u.same w = true :=
  same_trans (same_of_equal h) h'

theorem same_eq_of_alike {v v' w w' : Value} (hv : v.Alike v') (hw : w.Alike w') :
    v.same w = v'.same w' := by
  rw [Bool.eq_iff_iff]
  constructor
  · intro h
    exact same_of_equal_of_same hv.symm.equal (same_of_same_of_equal h hw.equal)
  · intro h
    exact same_of_equal_of_same hv.equal (same_of_same_of_equal h hw.symm.equal)

theorem hasDuplicates_eq_of_alike {vs ws : List Value} (h : List.Forall₂ Alike vs ws) :
    hasDuplicates vs = hasDuplicates ws := by
  induction h with
  | nil => rfl
  | @cons v w vs ws hvw hrest ih =>
    have hany : vs.any (fun other => v.same other) = ws.any fun other => w.same other := by
      clear ih
      induction hrest with
      | nil => rfl
      | cons hother _ ih => rw [List.any_cons, List.any_cons, same_eq_of_alike hvw hother, ih]
    rw [hasDuplicates, hasDuplicates, hany, ih]

end Value
end ItemShape
