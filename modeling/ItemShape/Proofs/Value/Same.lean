import ItemShape.Proofs.Value.Alike

/-!
# ItemShape.Proofs.Value.Same

Being the same value is an equivalence on values whose maps have distinct names
(`same_equivalence`). It is wider than equality, and so it does not matter for it which of several
equal values stands on either side.

Of the three laws only transitivity holds without distinct names (`same_trans`). A map is compared
by looking up the names of one side; with distinct names on both sides and as many entries, no name
of the other side is left over.

Whether a list has duplicates is then a matter of its members and not of their order
(`hasDuplicates_eq_of_perm`).
-/

namespace ItemShape
namespace Value

/-! ## The equivalence -/

theorem same_refl {v : Value} (hd : v.DistinctNames) : v.same v = true :=
  same_of_equal (equal_refl hd)

theorem same_symm : ∀ {v w : Value}, v.DistinctNames → w.DistinctNames → v.same w = true →
    w.same v = true := by
  intro v
  induction v using Value.induct with
  | number a =>
    intro w _ _ h
    obtain ⟨b, rfl, hb⟩ := same_number_iff.mp h
    exact same_number_iff.mpr ⟨a, rfl, Number.same_symm hb⟩
  | list vs ih =>
    intro w hd hd' h
    obtain ⟨ws, rfl, hs⟩ := same_list_iff.mp h
    rw [distinctNames_list] at hd hd'
    refine same_list_iff.mpr ⟨vs, rfl, forall₂_flip (fun v hv w hw => ?_) hs⟩
    exact ih v hv (hd v hv) (hd' w hw)
  | map entries ih =>
    intro w hd hd' h
    obtain ⟨others, rfl, hl, hs⟩ := same_map_iff.mp h
    rw [distinctNames_map] at hd hd'
    refine same_map_iff.mpr ⟨entries, rfl, hl.symm, fun other ho => ?_⟩
    obtain ⟨v, hv, hvw⟩ := Entries.exists_get?_of_length_le (fun v w => v.same w = true) hd.1 hd'.1
      (Nat.le_of_eq hl.symm) hs other ho
    have hm := Entries.mem_of_get? hv
    exact ⟨v, hv, ih _ hm (hd.2 _ hm) (hd'.2 other ho) hvw⟩
  -- Any other value is the same as its equals only, and they are the same as it.
  | null => intro w hd hd' h; exact same_of_equal (equal_symm hd hd' h)
  | bool b => intro w hd hd' h; exact same_of_equal (equal_symm hd hd' h)
  | string s => intro w hd hd' h; exact same_of_equal (equal_symm hd hd' h)
  | op operation _ => intro w hd hd' h; exact same_of_equal (equal_symm hd hd' h)

/-! ## Duplicates -/

theorem hasDuplicates_eq_false_iff {members : List Value} :
    hasDuplicates members = false ↔ members.Pairwise fun v w => v.same w = false := by
  induction members with
  | nil => simp [hasDuplicates]
  | cons member rest ih => simp [hasDuplicates, ih]

/-- Two values that are not the same, whichever is asked. -/
def Apart (v w : Value) : Prop :=
  v.same w = false ∧ w.same v = false

theorem Apart.symm {v w : Value} (h : v.Apart w) : w.Apart v :=
  And.symm h

theorem hasDuplicates_eq_false_iff_apart {members : List Value}
    (hd : ∀ v ∈ members, v.DistinctNames) :
    hasDuplicates members = false ↔ members.Pairwise Apart := by
  rw [hasDuplicates_eq_false_iff]
  constructor
  · intro h
    refine h.imp_of_mem fun {v w} hv hw hvw => ⟨hvw, ?_⟩
    by_contra hwv
    have hsame := same_symm (hd w hw) (hd v hv) (Bool.of_not_eq_false hwv)
    rw [hvw] at hsame
    cases hsame
  · intro h
    exact h.imp And.left

theorem hasDuplicates_eq_of_perm {members others : List Value}
    (hd : ∀ v ∈ members, v.DistinctNames) (hp : members.Perm others) :
    hasDuplicates members = hasDuplicates others := by
  have hd' : ∀ v ∈ others, v.DistinctNames := fun v hv => hd v (hp.mem_iff.mpr hv)
  have unique : hasDuplicates members = false ↔ hasDuplicates others = false := by
    rw [hasDuplicates_eq_false_iff_apart hd, hasDuplicates_eq_false_iff_apart hd',
      hp.pairwise_iff Apart.symm]
  rw [Bool.eq_iff_iff, ← not_iff_not, Bool.not_eq_true, Bool.not_eq_true]
  exact unique

/-- Being the same value is an equivalence on values with distinct names. It contains equality and
does not tell equal values apart on either side, and the check for duplicates gives the same answer
for the members of a set in any order. -/
theorem same_equivalence :
    Equivalence (fun v w : {v : Value // v.DistinctNames} => v.1.same w.1 = true) ∧
      (∀ v w : Value, v.equal w = true → v.same w = true) ∧
      (∀ v v' w w' : Value, v.DistinctNames → v'.DistinctNames → w.DistinctNames →
        w'.DistinctNames → v.equal v' = true → w.equal w' = true → v.same w = v'.same w') ∧
      ∀ members others : List Value, (∀ v ∈ members, v.DistinctNames) → members.Perm others →
        hasDuplicates members = hasDuplicates others := by
  refine ⟨⟨fun v => same_refl v.2, fun {v w} h => same_symm v.2 w.2 h, fun h h' => same_trans h h'⟩,
    fun v w h => same_of_equal h, ?_, fun members others hd hp => hasDuplicates_eq_of_perm hd hp⟩
  intro v v' w w' hv hv' hw hw' hvv' hww'
  exact same_eq_of_alike ⟨hv, hv', hvv'⟩ ⟨hw, hw', hww'⟩

/-- Two maps with a number of either form, and a third one that lists the entries of the first in
another order. -/
theorem same_equivalence_reordered_map :
    let whole := Value.number (.int 1 (by decide))
    let double := Value.number (.float ⟨false, Nat.pow 2 52, -52, by decide⟩)
    let v := Value.map [("a", whole), ("b", .list [.null, double])]
    let v' := Value.map [("b", .list [.null, double]), ("a", whole)]
    let w := Value.map [("b", .list [.null, whole]), ("a", double)]
    v.DistinctNames ∧ v'.DistinctNames ∧ w.DistinctNames ∧
      v.equal v' = true ∧ v.equal w = false ∧ v.same w = true ∧ w.same v = true ∧
      v.same v' = true ∧ v'.same w = true ∧
      [v, .string "x", w].Perm [.string "x", w, v] ∧
      hasDuplicates [v, .string "x", w] = true ∧ hasDuplicates [.string "x", w, v] = true := by
  intro whole double v v' w
  have hv : v.DistinctNames := by simp [v, whole, double, DistinctNames, EntriesDistinct,
    ItemsDistinct, Entries.Distinct, Entries.names]
  have hv' : v'.DistinctNames := by simp [v', whole, double, DistinctNames, EntriesDistinct,
    ItemsDistinct, Entries.Distinct, Entries.names]
  have hw : w.DistinctNames := by simp [w, whole, double, DistinctNames, EntriesDistinct,
    ItemsDistinct, Entries.Distinct, Entries.names]
  have equal : v.equal v' = true := rfl
  have same : v.same w = true := rfl
  have members : ∀ u ∈ [v, .string "x", w], u.DistinctNames := by
    intro u hu
    simp only [List.mem_cons, List.not_mem_nil, or_false] at hu
    rcases hu with rfl | rfl | rfl
    · exact hv
    · exact trivial
    · exact hw
  have moved : [v, .string "x", w].Perm [.string "x", w, v] :=
    (List.perm_append_singleton v [.string "x", w]).symm
  have found : hasDuplicates [v, .string "x", w] = true := rfl
  obtain ⟨equivalence, contains, exchange, order⟩ := same_equivalence
  have back : w.same v = true := @Equivalence.symm _ _ equivalence ⟨v, hv⟩ ⟨w, hw⟩ same
  have exchanged := exchange v v' w w hv hv' hw hw equal (equal_refl hw)
  have everyOrder := order _ _ members moved
  exact ⟨hv, hv', hw, equal, rfl, same, back, contains v v' equal, exchanged.symm.trans same, moved,
    found, everyOrder.symm.trans found⟩

end Value
end ItemShape
