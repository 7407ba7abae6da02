import ItemShape.Proofs.Entries
import ItemShape.Proofs.Lists
import ItemShape.Proofs.Number
import ItemShape.Value

/-!
# ItemShape.Proofs.Value.Equal

The two comparisons of values.

* `Value.induct`: induction over values, with a hypothesis for every value inside a list, a map or
  an operation.
* `equal_refl`, `equal_symm`, `equal_trans`: `equal` is an equivalence on values whose maps have
  distinct names. Without distinct names only transitivity is left.
* `same_of_equal`, `same_trans`: values are the same if they are equal, or both the same as a third
  one. So `same` does not tell equal values apart (`same_of_same_of_equal`).
-/

namespace ItemShape

namespace Operation

variable {α : Type}

/-- The value inside an operation: its operand, or its fallback. -/
def inner? : Operation α → Option α
  | .add operand | .delete operand | .set operand => some operand
  | .remove => none
  | .get _ fallback => fallback

/-- The same operation around related values. -/
inductive Rel (R : α → α → Prop) : Operation α → Operation α → Prop where
  | add {v w : α} (h : R v w) : Rel R (.add v) (.add w)
  | delete {v w : α} (h : R v w) : Rel R (.delete v) (.delete w)
  | set {v w : α} (h : R v w) : Rel R (.set v) (.set w)
  | remove : Rel R .remove .remove
  | get {v w : Option α} (source : String) (h : Option.Rel R v w) :
    Rel R (.get source v) (.get source w)

variable {R : α → α → Prop}

theorem Rel.refl {o : Operation α} (h : ∀ v, o.inner? = some v → R v v) : Rel R o o := by
  cases o with
  | add v => exact .add (h v rfl)
  | delete v => exact .delete (h v rfl)
  | set v => exact .set (h v rfl)
  | remove => exact .remove
  | get source fallback =>
    cases fallback with
    | none => exact .get source .none
    | some v => exact .get source (.some (h v rfl))

theorem Rel.symm {o p : Operation α}
    (h : ∀ v w, o.inner? = some v → p.inner? = some w → R v w → R w v) (hr : Rel R o p) :
    Rel R p o := by
  cases hr with
  | add hr => exact .add (h _ _ rfl rfl hr)
  | delete hr => exact .delete (h _ _ rfl rfl hr)
  | set hr => exact .set (h _ _ rfl rfl hr)
  | remove => exact .remove
  | get source hr =>
    cases hr with
    | none => exact .get source .none
    | some hr => exact .get source (.some (h _ _ rfl rfl hr))

theorem Rel.trans {o p q : Operation α}
    (h : ∀ u, o.inner? = some u → ∀ v w, R u v → R v w → R u w) (hr : Rel R o p)
    (hr' : Rel R p q) : Rel R o q := by
  cases hr with
  | add hr => cases hr' with | add hr' => exact .add (h _ rfl _ _ hr hr')
  | delete hr => cases hr' with | delete hr' => exact .delete (h _ rfl _ _ hr hr')
  | set hr => cases hr' with | set hr' => exact .set (h _ rfl _ _ hr hr')
  | remove => exact hr'
  | get source hr =>
    cases hr' with
    | get _ hr' =>
      cases hr with
      | none => exact .get source hr'
      | some hr => cases hr' with | some hr' => exact .get source (.some (h _ rfl _ _ hr hr'))

end Operation

namespace Value

theorem induct {P : Value → Prop} (null : P .null) (bool : ∀ b, P (.bool b))
    (number : ∀ n, P (.number n)) (string : ∀ s, P (.string s))
    (list : ∀ items, (∀ item ∈ items, P item) → P (.list items))
    (map : ∀ entries, (∀ entry ∈ entries, P entry.2) → P (.map entries))
    (op : ∀ operation : Operation Value, (∀ inner, operation.inner? = some inner → P inner) →
      P (.op operation)) : ∀ v, P v := by
  intro v
  refine Value.rec (motive_1 := P) (motive_2 := fun items => ∀ item ∈ items, P item)
    (motive_3 := fun entries => ∀ entry ∈ entries, P entry.2)
    (motive_4 := fun operation => ∀ inner, operation.inner? = some inner → P inner)
    (motive_5 := fun entry => P entry.2)
    (motive_6 := fun inner? => ∀ inner, inner? = some inner → P inner)
    null bool number string list map op ?_ ?_ ?_ ?_ ?_ ?_ ?_ ?_ ?_ ?_ ?_ ?_ v
  · intro item h; cases h
  · intro head tail hh ht item h
    rcases List.mem_cons.mp h with rfl | h
    · exact hh
    · exact ht item h
  · intro entry h; cases h
  · intro head tail hh ht entry h
    rcases List.mem_cons.mp h with rfl | h
    · exact hh
    · exact ht entry h
  · intro operand h inner hi; cases hi; exact h
  · intro operand h inner hi; cases hi; exact h
  · intro operand h inner hi; cases hi; exact h
  · intro inner hi; cases hi
  · intro source fallback h inner hi; exact h inner hi
  · intro name value h; exact h
  · intro inner hi; cases hi
  · intro value h inner hi; cases hi; exact h

/-! ## Lists and maps, compared member by member -/

attribute [local simp] equal itemsEqual entriesEqual same itemsSame entriesSame
attribute [local simp] DistinctNames ItemsDistinct EntriesDistinct

theorem itemsEqual_iff {vs ws : List Value} :
    itemsEqual vs ws = true ↔ List.Forall₂ (fun v w => v.equal w = true) vs ws := by
  induction vs generalizing ws with
  | nil => cases ws <;> simp
  | cons v vs ih => cases ws <;> simp [ih]

theorem itemsSame_iff {vs ws : List Value} :
    itemsSame vs ws = true ↔ List.Forall₂ (fun v w => v.same w = true) vs ws := by
  induction vs generalizing ws with
  | nil => cases ws <;> simp
  | cons v vs ih => cases ws <;> simp [ih]

theorem entriesEqual_iff {entries others : List (String × Value)} :
    entriesEqual entries others = true ↔
      ∀ entry ∈ entries, ∃ w, Entries.get? entry.1 others = some w ∧ entry.2.equal w = true := by
  induction entries with
  | nil => simp
  | cons entry rest ih =>
    rw [entriesEqual, Bool.and_eq_true, ih, List.forall_mem_cons]
    refine and_congr_left fun _ => ?_
    cases Entries.get? entry.1 others <;> simp

theorem entriesSame_iff {entries others : List (String × Value)} :
    entriesSame entries others = true ↔
      ∀ entry ∈ entries, ∃ w, Entries.get? entry.1 others = some w ∧ entry.2.same w = true := by
  induction entries with
  | nil => simp
  | cons entry rest ih =>
    rw [entriesSame, Bool.and_eq_true, ih, List.forall_mem_cons]
    refine and_congr_left fun _ => ?_
    cases Entries.get? entry.1 others <;> simp

theorem equal_list_iff {vs : List Value} {w : Value} :
    equal (.list vs) w = true ↔
      ∃ ws, w = .list ws ∧ List.Forall₂ (fun v w => v.equal w = true) vs ws := by
  cases w <;> simp [itemsEqual_iff]

theorem equal_map_iff {entries : List (String × Value)} {w : Value} :
    equal (.map entries) w = true ↔ ∃ others, w = .map others ∧ entries.length = others.length ∧
      ∀ entry ∈ entries, ∃ w, Entries.get? entry.1 others = some w ∧ entry.2.equal w = true := by
  cases w <;> simp [entriesEqual_iff]

theorem equal_op_iff {operation : Operation Value} {w : Value} :
    equal (.op operation) w = true ↔
      ∃ other, w = .op other ∧ operation.Rel (fun v w => v.equal w = true) other := by
  constructor
  · intro h
    cases w with
    | op other =>
      refine ⟨other, rfl, ?_⟩
      rcases operation with v | v | v | _ | ⟨source, _ | v⟩ <;>
        rcases other with w | w | w | _ | ⟨source', _ | w⟩ <;>
          simp only [equal, Bool.false_eq_true, Bool.and_eq_true, beq_iff_eq] at h
      · exact .add h
      · exact .delete h
      · exact .set h
      · exact .remove
      · subst h; exact .get source .none
      · obtain ⟨rfl, h⟩ := h; exact .get source (.some h)
    | _ => simp at h
  · rintro ⟨other, rfl, h⟩
    cases h with
    | get source h => cases h <;> simp_all
    | _ => simp_all

theorem same_number_iff {a : Number} {w : Value} :
    same (.number a) w = true ↔ ∃ b, w = .number b ∧ a.same b = true := by
  cases w <;> simp

theorem same_list_iff {vs : List Value} {w : Value} :
    same (.list vs) w = true ↔
      ∃ ws, w = .list ws ∧ List.Forall₂ (fun v w => v.same w = true) vs ws := by
  cases w <;> simp [itemsSame_iff]

theorem same_map_iff {entries : List (String × Value)} {w : Value} :
    same (.map entries) w = true ↔ ∃ others, w = .map others ∧ entries.length = others.length ∧
      ∀ entry ∈ entries, ∃ w, Entries.get? entry.1 others = some w ∧ entry.2.same w = true := by
  cases w <;> simp [entriesSame_iff]

/-! ## Distinct names -/

theorem itemsDistinct_iff {items : List Value} :
    ItemsDistinct items ↔ ∀ item ∈ items, item.DistinctNames := by
  induction items with
  | nil => simp
  | cons item rest ih => simp [ih]

theorem entriesDistinct_iff {entries : List (String × Value)} :
    EntriesDistinct entries ↔ ∀ entry ∈ entries, entry.2.DistinctNames := by
  induction entries with
  | nil => simp
  | cons entry rest ih => simp [ih]

theorem distinctNames_list {items : List Value} :
    (Value.list items).DistinctNames ↔ ∀ item ∈ items, item.DistinctNames := by
  rw [DistinctNames, itemsDistinct_iff]

theorem distinctNames_map {entries : List (String × Value)} :
    (Value.map entries).DistinctNames ↔
      Entries.Distinct entries ∧ ∀ entry ∈ entries, entry.2.DistinctNames := by
  rw [DistinctNames, entriesDistinct_iff]

theorem distinctNames_op {operation : Operation Value} :
    (Value.op operation).DistinctNames ↔
      ∀ inner, operation.inner? = some inner → inner.DistinctNames := by
  cases operation with
  | get source fallback => cases fallback <;> simp [Operation.inner?]
  | _ => simp [Operation.inner?]

/-- Two maps with the same names, and equal values under them. -/
theorem equal_map_of_names {entries others : List (String × Value)}
    (hd : Entries.Distinct entries) (hd' : Entries.Distinct others)
    (hs : Entries.names entries ⊆ Entries.names others)
    (hs' : Entries.names others ⊆ Entries.names entries)
    (he : ∀ name v w, Entries.get? name entries = some v → Entries.get? name others = some w →
      v.equal w = true) : (Value.map entries).equal (.map others) = true := by
  have hl : entries.length = others.length := by
    have h := (List.Nodup.subperm hd hs).length_le
    have h' := (List.Nodup.subperm hd' hs').length_le
    simp only [Entries.names, List.length_map] at h h'
    omega
  refine equal_map_iff.mpr ⟨others, rfl, hl, fun entry hm => ?_⟩
  obtain ⟨w, hw⟩ := Entries.exists_get?_iff.mpr (hs (Entries.mem_names_of_mem hm))
  exact ⟨w, hw, he _ _ _ (Entries.get?_of_mem hd hm) hw⟩

/-! ## The equivalence -/

theorem equal_refl : ∀ {v : Value}, v.DistinctNames → v.equal v = true := by
  intro v
  induction v using Value.induct with
  | null => intro _; rfl
  | bool b => intro _; simp
  | number n => intro _; exact Number.equal_refl n
  | string s => intro _; simp
  | list items ih =>
    intro hd
    rw [distinctNames_list] at hd
    exact equal_list_iff.mpr
      ⟨items, rfl, List.forall₂_same.mpr fun item hi => ih item hi (hd item hi)⟩
  | map entries ih =>
    intro hd
    rw [distinctNames_map] at hd
    refine equal_map_iff.mpr ⟨entries, rfl, rfl, fun entry he => ?_⟩
    exact ⟨entry.2, Entries.get?_of_mem hd.1 he, ih entry he (hd.2 entry he)⟩
  | op operation ih =>
    intro hd
    rw [distinctNames_op] at hd
    exact equal_op_iff.mpr ⟨operation, rfl, .refl fun v hv => ih v hv (hd v hv)⟩

theorem equal_trans : ∀ {u v w : Value}, u.equal v = true → v.equal w = true →
    u.equal w = true := by
  intro u
  induction u using Value.induct with
  | null => intro v w h h'; cases v <;> simp at h; exact h'
  | bool b => intro v w h h'; cases v <;> simp at h; subst h; exact h'
  | number n =>
    intro v w h h'
    cases v <;> simp only [equal, Bool.false_eq_true] at h
    cases w <;> simp only [equal, Bool.false_eq_true] at h' ⊢
    exact Number.equal_trans h h'
  | string s => intro v w h h'; cases v <;> simp at h; subst h; exact h'
  | list us ih =>
    intro v w h h'
    obtain ⟨vs, rfl, hs⟩ := equal_list_iff.mp h
    obtain ⟨ws, rfl, hs'⟩ := equal_list_iff.mp h'
    refine equal_list_iff.mpr ⟨ws, rfl, forall₂_comp (fun u hu v w huv hvw => ?_) hs hs'⟩
    exact ih u hu huv hvw
  | map entries ih =>
    intro v w h h'
    obtain ⟨others, rfl, hl, hs⟩ := equal_map_iff.mp h
    obtain ⟨thirds, rfl, hl', hs'⟩ := equal_map_iff.mp h'
    refine equal_map_iff.mpr ⟨thirds, rfl, hl.trans hl', fun entry he => ?_⟩
    obtain ⟨v, hv, huv⟩ := hs entry he
    obtain ⟨w, hw, hvw⟩ := hs' _ (Entries.mem_of_get? hv)
    exact ⟨w, hw, ih entry he huv hvw⟩
  | op operation ih =>
    intro v w h h'
    obtain ⟨other, rfl, hr⟩ := equal_op_iff.mp h
    obtain ⟨third, rfl, hr'⟩ := equal_op_iff.mp h'
    exact equal_op_iff.mpr ⟨third, rfl, hr.trans (fun u hu _ _ => ih u hu) hr'⟩

theorem equal_symm : ∀ {v w : Value}, v.DistinctNames → w.DistinctNames → v.equal w = true →
    w.equal v = true := by
  intro v
  induction v using Value.induct with
  | null => intro w _ _ h; cases w <;> simp at h ⊢
  | bool b => intro w _ _ h; cases w <;> simp at h ⊢; exact h.symm
  | number n =>
    intro w _ _ h
    cases w <;> simp only [equal, Bool.false_eq_true] at h ⊢
    exact Number.equal_symm h
  | string s => intro w _ _ h; cases w <;> simp at h ⊢; exact h.symm
  | list vs ih =>
    intro w hd hd' h
    obtain ⟨ws, rfl, hs⟩ := equal_list_iff.mp h
    rw [distinctNames_list] at hd hd'
    refine equal_list_iff.mpr ⟨vs, rfl, forall₂_flip (fun v hv w hw => ?_) hs⟩
    exact ih v hv (hd v hv) (hd' w hw)
  | map entries ih =>
    intro w hd hd' h
    obtain ⟨others, rfl, hl, hs⟩ := equal_map_iff.mp h
    rw [distinctNames_map] at hd hd'
    refine equal_map_iff.mpr ⟨entries, rfl, hl.symm, fun other ho => ?_⟩
    obtain ⟨v, hv, hvw⟩ := Entries.exists_get?_of_length_le (fun v w => v.equal w = true) hd.1 hd'.1
      (Nat.le_of_eq hl.symm) hs other ho
    have hm := Entries.mem_of_get? hv
    exact ⟨v, hv, ih _ hm (hd.2 _ hm) (hd'.2 other ho) hvw⟩
  | op operation ih =>
    intro w hd hd' h
    obtain ⟨other, rfl, hr⟩ := equal_op_iff.mp h
    rw [distinctNames_op] at hd hd'
    refine equal_op_iff.mpr ⟨operation, rfl, hr.symm fun v w hv hw => ?_⟩
    exact ih v hv (hd v hv) (hd' w hw)

/-! ## Sameness -/

theorem same_of_equal : ∀ {v w : Value}, v.equal w = true → v.same w = true := by
  intro v
  induction v using Value.induct with
  | number a =>
    intro w h
    cases w <;> simp only [equal, Bool.false_eq_true] at h
    exact same_number_iff.mpr ⟨_, rfl, Number.same_of_equal h⟩
  | list vs ih =>
    intro w h
    obtain ⟨ws, rfl, hs⟩ := equal_list_iff.mp h
    exact same_list_iff.mpr ⟨ws, rfl, forall₂_imp (fun v hv w _ he => ih v hv he) hs⟩
  | map entries ih =>
    intro w h
    obtain ⟨others, rfl, hl, hs⟩ := equal_map_iff.mp h
    refine same_map_iff.mpr ⟨others, rfl, hl, fun entry he => ?_⟩
    obtain ⟨w, hw, hvw⟩ := hs entry he
    exact ⟨w, hw, ih entry he hvw⟩
  | null => intro w h; exact h
  | bool b => intro w h; exact h
  | string s => intro w h; exact h
  | op operation _ => intro w h; exact h

theorem same_trans : ∀ {u v w : Value}, u.same v = true → v.same w = true → u.same w = true := by
  intro u
  induction u using Value.induct with
  | number a =>
    intro v w h h'
    obtain ⟨b, rfl, hb⟩ := same_number_iff.mp h
    obtain ⟨c, rfl, hc⟩ := same_number_iff.mp h'
    exact same_number_iff.mpr ⟨c, rfl, Number.same_trans hb hc⟩
  | list us ih =>
    intro v w h h'
    obtain ⟨vs, rfl, hs⟩ := same_list_iff.mp h
    obtain ⟨ws, rfl, hs'⟩ := same_list_iff.mp h'
    refine same_list_iff.mpr ⟨ws, rfl, forall₂_comp (fun u hu v w huv hvw => ?_) hs hs'⟩
    exact ih u hu huv hvw
  | map entries ih =>
    intro v w h h'
    obtain ⟨others, rfl, hl, hs⟩ := same_map_iff.mp h
    obtain ⟨thirds, rfl, hl', hs'⟩ := same_map_iff.mp h'
    refine same_map_iff.mpr ⟨thirds, rfl, hl.trans hl', fun entry he => ?_⟩
    obtain ⟨v, hv, huv⟩ := hs entry he
    obtain ⟨w, hw, hvw⟩ := hs' _ (Entries.mem_of_get? hv)
    exact ⟨w, hw, ih entry he huv hvw⟩
  -- Any other value is the same as its equals only, which are of the same constructor.
  | null =>
    intro v w h h'
    cases v <;> simp at h
    exact h'
  | bool b =>
    intro v w h h'
    cases v <;> simp at h
    subst h
    exact h'
  | string s =>
    intro v w h h'
    cases v <;> simp at h
    subst h
    exact h'
  | op operation _ =>
    intro v w h h'
    obtain ⟨other, rfl, -⟩ := equal_op_iff.mp h
    exact equal_trans h h'

theorem same_of_same_of_equal {u v w : Value} (h : u.same v = true) (h' : v.equal w = true) :
    u.same w = true :=
  same_trans h (same_of_equal h')

end Value
end ItemShape
