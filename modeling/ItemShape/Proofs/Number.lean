import ItemShape.Number

/-!
# ItemShape.Proofs.Number

Equality of doubles and of numbers is an equivalence. Equality by magnitude (`Number.same`) is
symmetric and transitive too, and holds of equal numbers (`same_of_equal`), so it does not tell them
apart.
-/

namespace ItemShape
namespace Binary64

theorem equal_iff {x y : Binary64} :
    x.equal y = true ↔ (x.isZero = true ∧ y.isZero = true) ∨ x = y := by
  simp [equal]

theorem equal_refl (x : Binary64) : x.equal x = true :=
  equal_iff.mpr (.inr rfl)

theorem equal_symm {x y : Binary64} (h : x.equal y = true) : y.equal x = true := by
  rw [equal_iff] at h ⊢
  exact h.imp And.symm Eq.symm

theorem equal_trans {x y z : Binary64} (h : x.equal y = true) (h' : y.equal z = true) :
    x.equal z = true := by
  rw [equal_iff] at h h' ⊢
  rcases h with ⟨hx, hy⟩ | rfl
  · rcases h' with ⟨_, hz⟩ | rfl
    · exact .inl ⟨hx, hz⟩
    · exact .inl ⟨hx, hy⟩
  · exact h'

end Binary64

namespace Number

theorem equal_refl (a : Number) : a.equal a = true := by
  cases a with
  | int z _ => simp [equal]
  | float x => exact Binary64.equal_refl x

theorem equal_symm {a b : Number} (h : a.equal b = true) : b.equal a = true := by
  cases a with
  | int z _ =>
    cases b with
    | int w _ => simp only [equal, beq_iff_eq] at h ⊢; exact h.symm
    | float y => simp [equal] at h
  | float x =>
    cases b with
    | int w _ => simp [equal] at h
    | float y => exact Binary64.equal_symm h

theorem equal_trans {a b c : Number} (h : a.equal b = true) (h' : b.equal c = true) :
    a.equal c = true := by
  cases b with
  | int w _ =>
    cases a with
    | int z _ =>
      simp only [equal, beq_iff_eq] at h
      subst h
      exact h'
    | float x => simp [equal] at h
  | float y =>
    cases a with
    | int z _ => simp [equal] at h
    | float x =>
      cases c with
      | int v _ => simp [equal] at h'
      | float z => exact Binary64.equal_trans h h'

/-- Equal numbers have equal doubles, or none. -/
theorem toBinary64?_of_equal {a b : Number} (h : a.equal b = true) :
    Option.Rel (fun x y => Binary64.equal x y = true) a.toBinary64? b.toBinary64? := by
  cases a with
  | int z _ =>
    cases b with
    | int w _ =>
      simp only [equal, beq_iff_eq] at h
      subst h
      simp only [toBinary64?]
      cases Binary64.ofInt? z with
      | none => exact .none
      | some x => exact .some (Binary64.equal_refl x)
    | float y => simp [equal] at h
  | float x =>
    cases b with
    | int w _ => simp [equal] at h
    | float y => exact .some h

/-- Numbers are the same if their doubles are equal. Two numbers without a double have to be equal
themselves. -/
theorem same_iff {a b : Number} : a.same b = true ↔
    Option.Rel (fun x y => Binary64.equal x y = true) a.toBinary64? b.toBinary64? ∧
      (a.toBinary64? = none → a.equal b = true) := by
  constructor
  · intro h
    cases ha : a.toBinary64? with
    | some x =>
      cases hb : b.toBinary64? with
      | some y =>
        simp only [same, ha, hb] at h
        exact ⟨.some h, fun hn => by cases hn⟩
      | none =>
        simp only [same, ha, hb] at h
        have hr := toBinary64?_of_equal h
        rw [ha, hb] at hr
        cases hr
    | none =>
      have he : a.equal b = true := by simpa only [same, ha] using h
      have hr := toBinary64?_of_equal he
      rw [ha] at hr
      exact ⟨hr, fun _ => he⟩
  · rintro ⟨hr, he⟩
    cases ha : a.toBinary64? with
    | some x =>
      rw [ha] at hr
      generalize hb : b.toBinary64? = found at hr
      cases hr with
      | some hxy => simpa only [same, ha, hb] using hxy
    | none => simpa only [same, ha] using he ha

theorem same_of_equal {a b : Number} (h : a.equal b = true) : a.same b = true :=
  same_iff.mpr ⟨toBinary64?_of_equal h, fun _ => h⟩

theorem same_symm {a b : Number} (h : a.same b = true) : b.same a = true := by
  obtain ⟨hr, he⟩ := same_iff.mp h
  generalize ha : a.toBinary64? = x at hr he
  generalize hb : b.toBinary64? = y at hr
  refine same_iff.mpr ?_
  rw [ha, hb]
  cases hr with
  | none => exact ⟨.none, fun _ => equal_symm (he rfl)⟩
  | some hxy => exact ⟨.some (Binary64.equal_symm hxy), fun hn => by cases hn⟩

theorem same_trans {a b c : Number} (h : a.same b = true) (h' : b.same c = true) :
    a.same c = true := by
  obtain ⟨hr, he⟩ := same_iff.mp h
  obtain ⟨hr', he'⟩ := same_iff.mp h'
  generalize ha : a.toBinary64? = x at hr he
  generalize b.toBinary64? = y at hr hr' he'
  generalize hc : c.toBinary64? = z at hr'
  refine same_iff.mpr ?_
  rw [ha, hc]
  cases hr with
  | none =>
    cases hr'
    exact ⟨.none, fun _ => equal_trans (he rfl) (he' rfl)⟩
  | some hxy =>
    cases hr' with
    | some hyz => exact ⟨.some (Binary64.equal_trans hxy hyz), fun hn => by cases hn⟩

end Number
end ItemShape
