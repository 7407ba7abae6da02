import ItemShape.Proofs.Number
import Mathlib.Tactic.Linarith
import Mathlib.Tactic.Ring

/-!
# ItemShape.Proofs.Number.Nearest

Whole numbers as doubles. A double has 53 binary digits, so from `2 ^ 53` on the whole numbers it
can be are `spacing` apart.

* `equal_iff_exact`: doubles are equal if and only if their exact values are.
* `NearestDouble`: what being the nearest double means; `nearest` computes it.
* `exists_ofInt?`: the double of a whole number has the value `nearest` gives.
* `same_int_iff`: two whole numbers are the same if and only if one double is nearest to both
  (`Merges`), which for different ones takes magnitudes of at least `2 ^ 53` (`le_of_merges`).
-/

namespace ItemShape
namespace Binary64

/-! ## Exact values -/

theorem den_pos (x : Binary64) : 0 < x.den :=
  Nat.two_pow_pos _

/-- A double with the larger exponent has its full number of digits, so the other one would need
more than that to have the same value. -/
theorem Canonical.not_lt {m m' : Nat} {e e' : Int} (h : Canonical m e) (h' : Canonical m' e')
    {i j : Nat} (hij : (i : Int) - j = e - e') (hv : m * 2 ^ i = m' * 2 ^ j) : ¬ e < e' := by
  intro hlt
  obtain ⟨hm, hmin, -, -⟩ := h
  obtain ⟨-, -, -, hfull | hleast⟩ := h'
  · have hj : j = i + 1 + (j - (i + 1)) := by omega
    have hpow : m * 2 ^ i = m' * 2 ^ (j - (i + 1)) * 2 * 2 ^ i := by
      rw [hv, hj]
      simp only [Nat.pow_add, Nat.pow_one, Nat.add_sub_cancel_left]
      ring
    have hmm := Nat.eq_of_mul_eq_mul_right (Nat.two_pow_pos i) hpow
    have hone : 1 ≤ 2 ^ (j - (i + 1)) := Nat.two_pow_pos _
    have hle : Nat.pow 2 52 * 1 ≤ m' * 2 ^ (j - (i + 1)) := Nat.mul_le_mul hfull hone
    simp only [Nat.pow_eq] at hm hle
    omega
  · omega

theorem Canonical.unique {m m' : Nat} {e e' : Int} (h : Canonical m e) (h' : Canonical m' e')
    {i j : Nat} (hij : (i : Int) - j = e - e') (hv : m * 2 ^ i = m' * 2 ^ j) :
    m = m' ∧ e = e' := by
  have hle := h.not_lt h' hij hv
  have hge := h'.not_lt h (by omega) hv.symm
  obtain rfl : e = e' := by omega
  obtain rfl : i = j := by omega
  exact ⟨Nat.eq_of_mul_eq_mul_right (Nat.two_pow_pos i) hv, rfl⟩

theorem num_eq_zero_iff {x : Binary64} : x.num = 0 ↔ x.isZero = true := by
  have hpow := Nat.two_pow_pos x.exponent.toNat
  simp only [num, isZero, Nat.pow_eq, Nat.mul_eq_zero, beq_iff_eq]
  omega

/-- Doubles of one sign are equal if their magnitudes are. -/
theorem eq_of_num {x y : Binary64} (hn : x.negative = y.negative)
    (h : x.num * y.den = y.num * x.den) : x = y := by
  have hv : x.significand * 2 ^ (x.exponent.toNat + (-y.exponent).toNat) =
      y.significand * 2 ^ (y.exponent.toNat + (-x.exponent).toNat) := by
    simp only [num, den, Nat.pow_eq] at h
    rw [Nat.pow_add, Nat.pow_add, ← Nat.mul_assoc, ← Nat.mul_assoc, h]
  obtain ⟨hm, he⟩ := x.canonical.unique y.canonical (by omega) hv
  cases x
  cases y
  cases hn
  cases hm
  cases he
  rfl

theorem natAbs_signedNum (x : Binary64) : x.signedNum.natAbs = x.num := by
  rw [signedNum]
  split <;> simp

theorem sign_signedNum {x : Binary64} (h : x.num ≠ 0) :
    x.signedNum.sign = if x.negative then -1 else 1 := by
  have hpos : (x.num : Int).sign = 1 := Int.sign_natCast_of_ne_zero h
  rw [signedNum]
  split
  · rw [Int.sign_neg, hpos]
  · exact hpos

theorem equal_iff_exact {x y : Binary64} :
    x.equal y = true ↔ x.signedNum * y.den = y.signedNum * x.den := by
  rw [equal_iff]
  constructor
  · rintro (⟨hx, hy⟩ | rfl)
    · rw [← num_eq_zero_iff, ← natAbs_signedNum, Int.natAbs_eq_zero] at hx hy
      rw [hx, hy, Int.zero_mul, Int.zero_mul]
    · rfl
  · intro h
    have hx : x.den ≠ 0 := Nat.ne_of_gt x.den_pos
    have hy : y.den ≠ 0 := Nat.ne_of_gt y.den_pos
    have hnum : x.num * y.den = y.num * x.den := by
      have habs := congrArg Int.natAbs h
      rwa [Int.natAbs_mul, Int.natAbs_mul, natAbs_signedNum, natAbs_signedNum, Int.natAbs_natCast,
        Int.natAbs_natCast] at habs
    have hzero : x.num = 0 ↔ y.num = 0 := by
      have hproducts := congrArg (fun n => n = 0) hnum
      simpa [hx, hy] using hproducts
    by_cases hz : x.num = 0
    · exact .inl ⟨num_eq_zero_iff.mp hz, num_eq_zero_iff.mp (hzero.mp hz)⟩
    · have hsign := congrArg Int.sign h
      rw [Int.sign_mul, Int.sign_mul, Int.sign_natCast_of_ne_zero hx,
        Int.sign_natCast_of_ne_zero hy, Int.mul_one, Int.mul_one, sign_signedNum hz,
        sign_signedNum (mt hzero.mpr hz)] at hsign
      have hnegative : x.negative = y.negative := by
        cases hnx : x.negative <;> cases hny : y.negative <;> simp [hnx, hny] at hsign ⊢
      exact .inr (eq_of_num hnegative hnum)

/-! ## Rounding -/

/-- No multiple of `step` is nearer to `z` than `m * step`, and if another one is equally near, `m` is
even. -/
structure NearestMultiple (step : Nat) (z m : Int) : Prop where
  near : 2 * (z - m * step).natAbs ≤ step
  even : 2 * (z - m * step).natAbs = step → m % 2 = 0

namespace NearestMultiple

variable {step : Nat} {z m m' : Int}

theorem le (hs : 0 < step) (h : NearestMultiple step z m) (h' : NearestMultiple step z m') :
    m' ≤ m := by
  by_contra hlt
  have hnear := h.near
  have hnear' := h'.near
  have hsucc : (m + 1) * step = m * step + step := by ring
  have hnext : (m + 1) * step ≤ m' * step :=
    Int.mul_le_mul_of_nonneg_right (by omega) (Int.natCast_nonneg step)
  -- Both multiples are half a step away, so they follow each other, and both are even.
  have hle : m' ≤ m + 1 := Int.le_of_mul_le_mul_right (by omega : m' * (step : Int) ≤ _) (by omega)
  have heven := h.even (by omega)
  have heven' := h'.even (by omega)
  omega

theorem unique (hs : 0 < step) (h : NearestMultiple step z m) (h' : NearestMultiple step z m') :
    m = m' :=
  Int.le_antisymm (h'.le hs h) (h.le hs h')

theorem neg (h : NearestMultiple step z m) : NearestMultiple step (-z) (-m) := by
  obtain ⟨near, even⟩ := h
  have hdist : (-z - -m * step).natAbs = (z - m * step).natAbs := by
    rw [Int.neg_mul]
    omega
  refine ⟨hdist ▸ near, fun h => ?_⟩
  have := even (hdist ▸ h)
  omega

end NearestMultiple

/-- The quotient is rounded down or up, at a half to the even neighbour. -/
theorem divNearestEven_cases (n d : Nat) :
    (divNearestEven n d = n / d ∧ 2 * (n % d) ≤ d ∧ (2 * (n % d) = d → n / d % 2 = 0)) ∨
      (divNearestEven n d = n / d + 1 ∧ d ≤ 2 * (n % d) ∧
        (2 * (n % d) = d → (n / d + 1) % 2 = 0)) := by
  simp only [divNearestEven]
  split
  · omega
  · split
    · omega
    · split <;> omega

theorem nearestMultiple_divNearestEven (n : Nat) {d : Nat} (hd : 0 < d) :
    NearestMultiple d n (divNearestEven n d) := by
  have hdiv := Nat.div_add_mod' n d
  have hlt := Nat.mod_lt n hd
  have hsucc : (n / d + 1) * d = n / d * d + d := Nat.succ_mul _ _
  constructor <;>
    rcases divNearestEven_cases n d with ⟨hr, hrem, even⟩ | ⟨hr, hrem, even⟩ <;>
      rw [hr, ← Int.natCast_mul] <;> omega

/-- Distance of the doubles next to each other about a magnitude. -/
def spacing (n : Nat) : Nat :=
  2 ^ (n.log2 - 52)

/-- The whole number `w` is a double, and none is nearer to `z`; of two that are equally near it is
the one with the even significand. -/
def NearestDouble (z w : Int) : Prop :=
  ∃ m, NearestMultiple (spacing z.natAbs) z m ∧ w = m * spacing z.natAbs

/-- One double is nearest to both whole numbers. -/
def Merges (a b : Int) : Prop :=
  ∃ w, NearestDouble a w ∧ NearestDouble b w

/-- The double nearest to a whole number. -/
def nearest (z : Int) : Int :=
  let magnitude := divNearestEven z.natAbs (spacing z.natAbs) * spacing z.natAbs
  if z < 0 then -(magnitude : Int) else magnitude

theorem spacing_pos (n : Nat) : 0 < spacing n :=
  Nat.two_pow_pos _

theorem nearestDouble_nearest (z : Int) : NearestDouble z (nearest z) := by
  have h := nearestMultiple_divNearestEven z.natAbs (spacing_pos z.natAbs)
  rw [nearest]
  split
  · have hz : -(z.natAbs : Int) = z := by omega
    exact ⟨_, hz ▸ h.neg, by rw [Int.neg_mul, Int.natCast_mul]⟩
  · have hz : (z.natAbs : Int) = z := by omega
    rw [hz] at h
    exact ⟨_, h, Int.natCast_mul _ _⟩

theorem NearestDouble.eq_nearest {z w : Int} (h : NearestDouble z w) : w = nearest z := by
  obtain ⟨m, hm, rfl⟩ := h
  obtain ⟨m', hm', hw⟩ := nearestDouble_nearest z
  rw [hw, hm.unique (spacing_pos _) hm']

theorem merges_iff {a b : Int} : Merges a b ↔ nearest a = nearest b := by
  constructor
  · rintro ⟨w, ha, hb⟩
    exact ha.eq_nearest.symm.trans hb.eq_nearest
  · intro h
    exact ⟨nearest a, nearestDouble_nearest a, h ▸ nearestDouble_nearest b⟩

/-! ## The double of a whole number -/

theorem scale_one {n : Nat} (hn : n ≠ 0) : scale n 1 = (n.log2 : Int) - 52 := by
  have hlow := Nat.log2_self_le hn
  have hone : Nat.log2 1 = 0 := by decide
  have hexact : ¬ n * 2 ^ (-((n.log2 : Int) - 0 - 52)).toNat <
      1 * 2 ^ ((n.log2 : Int) - 0 - 52).toNat * 2 ^ 52 := by
    rw [Nat.not_lt, Nat.one_mul, ← Nat.pow_add]
    refine Nat.le_trans ?_ (Nat.mul_le_mul_right _ hlow)
    rw [← Nat.pow_add]
    exact Nat.pow_le_pow_right (by decide) (by omega)
  simp only [scale, hone, Nat.pow_eq, Int.natCast_zero]
  rw [if_neg hexact]
  omega

/-- A quotient between `2 ^ 52` and `2 ^ 53` is rounded to a number between them. -/
theorem divNearestEven_bounds {n d : Nat} (hd : 0 < d) (hlow : 2 ^ 52 * d ≤ n)
    (hhigh : n < 2 ^ 53 * d) :
    2 ^ 52 ≤ divNearestEven n d ∧ divNearestEven n d ≤ 2 ^ 53 := by
  have hq : 2 ^ 52 ≤ n / d := (Nat.le_div_iff_mul_le hd).mpr hlow
  have hq' : n / d < 2 ^ 53 := (Nat.div_lt_iff_lt_mul hd).mpr hhigh
  rcases divNearestEven_cases n d with ⟨hr, -⟩ | ⟨hr, -⟩ <;> omega

theorem divNearestEven_one (n : Nat) : divNearestEven n 1 = n := by
  simp [divNearestEven, Nat.mod_one]

theorem spacing_of_log2 {n : Nat} (h : n.log2 ≤ 52) : spacing n = 1 := by
  rw [spacing, Nat.sub_eq_zero_of_le h, Nat.pow_zero]

/-- A magnitude of fewer than 53 digits is brought to 53 before it is rounded, and then not changed
by the rounding. -/
theorem significand_mul_spacing (n : Nat) :
    divNearestEven (n * 2 ^ (52 - n.log2)) (spacing n) * spacing n =
      divNearestEven n (spacing n) * spacing n * 2 ^ (52 - n.log2) := by
  rcases Nat.le_total 52 n.log2 with h | h
  · rw [Nat.sub_eq_zero_of_le h, Nat.pow_zero, Nat.mul_one, Nat.mul_one]
  · rw [spacing_of_log2 h, divNearestEven_one, divNearestEven_one, Nat.mul_one, Nat.mul_one]

theorem significand_bounds {n : Nat} (hn : n ≠ 0) :
    2 ^ 52 ≤ divNearestEven (n * 2 ^ (52 - n.log2)) (spacing n) ∧
      divNearestEven (n * 2 ^ (52 - n.log2)) (spacing n) ≤ 2 ^ 53 := by
  refine divNearestEven_bounds (spacing_pos n) ?_ ?_
  · refine Nat.le_trans ?_ (Nat.mul_le_mul_right _ (Nat.log2_self_le hn))
    rw [spacing, ← Nat.pow_add, ← Nat.pow_add]
    exact Nat.pow_le_pow_right (by decide) (by omega)
  · refine Nat.lt_of_lt_of_le (Nat.mul_lt_mul_of_pos_right Nat.lt_log2_self
      (Nat.two_pow_pos _)) ?_
    rw [spacing, ← Nat.pow_add, ← Nat.pow_add]
    exact Nat.pow_le_pow_right (by decide) (by omega)

/-- Rounding adds a digit only to a magnitude of more than 52. -/
theorem le_log2_of_carry {n : Nat}
    (h : divNearestEven (n * 2 ^ (52 - n.log2)) (spacing n) = 2 ^ 53) : 52 ≤ n.log2 := by
  by_contra hsmall
  rw [spacing_of_log2 (by omega), divNearestEven_one] at h
  have hlt : n * 2 ^ (52 - n.log2) < 2 ^ (n.log2 + 1) * 2 ^ (52 - n.log2) :=
    Nat.mul_lt_mul_of_pos_right Nat.lt_log2_self (Nat.two_pow_pos _)
  have hle : 2 ^ (n.log2 + 1) * 2 ^ (52 - n.log2) ≤ 2 ^ 53 := by
    rw [← Nat.pow_add]
    exact Nat.pow_le_pow_right (by decide) (by omega)
  omega

theorem exists_ofParts? (negative : Bool) {m : Nat} {e : Int} (h : Canonical m e) :
    ∃ x, ofParts? negative m e = some x ∧ x.negative = negative ∧
      x.num = m * 2 ^ e.toNat ∧ x.den = 2 ^ (-e).toNat :=
  ⟨⟨negative, m, e, h⟩, dif_pos h, rfl, rfl, rfl⟩

/-- The magnitude of the double is the rounded one. -/
theorem exists_ofRatio? (negative : Bool) {n : Nat} (hn : n ≠ 0) (hr : n < 2 ^ 64) :
    ∃ x, ofRatio? negative n 1 = some x ∧ x.negative = negative ∧
      x.num = divNearestEven n (spacing n) * spacing n * x.den := by
  have hlog : n.log2 < 64 := (Nat.log2_lt hn).mpr hr
  obtain ⟨hlow, hhigh⟩ := significand_bounds hn
  have hdown : (-((n.log2 : Int) - 52)).toNat = 52 - n.log2 := by omega
  have hup : ((n.log2 : Int) - 52).toNat = n.log2 - 52 := by omega
  simp only [ofRatio?, if_neg hn, scale_one hn, Nat.pow_eq, Nat.one_mul, hdown, hup]
  rw [← spacing]
  have hvalue := significand_mul_spacing n
  split
  · rename_i hm
    have canonical : Canonical (2 ^ 52) ((n.log2 : Int) - 52 + 1) :=
      ⟨by decide, by omega, by omega, .inl (Nat.le_refl _)⟩
    obtain ⟨x, hx, hneg, hnum, hden⟩ := exists_ofParts? negative canonical
    refine ⟨x, hx, hneg, ?_⟩
    have hlarge := le_log2_of_carry hm
    have hexp : ((n.log2 : Int) - 52 + 1).toNat = 1 + (n.log2 - 52) := by omega
    have hexp' : (-((n.log2 : Int) - 52 + 1)).toNat = 0 := by omega
    rw [hm, Nat.sub_eq_zero_of_le hlarge, Nat.pow_zero, Nat.mul_one] at hvalue
    rw [hnum, hden, hexp, hexp', Nat.pow_zero, Nat.mul_one, ← hvalue, spacing, ← Nat.pow_add,
      ← Nat.pow_add, ← Nat.add_assoc]
  · rename_i hm
    have canonical : Canonical (divNearestEven (n * 2 ^ (52 - n.log2)) (spacing n))
        ((n.log2 : Int) - 52) :=
      ⟨Nat.lt_of_le_of_ne hhigh hm, by omega, by omega, .inl hlow⟩
    obtain ⟨x, hx, hneg, hnum, hden⟩ := exists_ofParts? negative canonical
    refine ⟨x, hx, hneg, ?_⟩
    rw [hnum, hden, hup, hdown, ← hvalue]
    rfl

/-- Up to `2 ^ 53` every whole number is a double. -/
theorem nearest_of_le {z : Int} (h : z.natAbs ≤ 2 ^ 53) : nearest z = z := by
  have hmagnitude : divNearestEven z.natAbs (spacing z.natAbs) * spacing z.natAbs = z.natAbs := by
    rcases Nat.lt_or_eq_of_le h with h | h
    · have hlog : z.natAbs.log2 ≤ 52 := by
        by_cases hz : z.natAbs = 0
        · simp [hz]
        · exact Nat.le_of_lt_succ ((Nat.log2_lt hz).mpr h)
      rw [spacing_of_log2 hlog, divNearestEven_one, Nat.mul_one]
    · rw [h]
      decide
  simp only [nearest, hmagnitude]
  split <;> omega

theorem exists_ofInt? {z : Int} (hz : Number.InRange z) :
    ∃ x, ofInt? z = some x ∧ x.signedNum = nearest z * x.den := by
  by_cases h : z = 0
  · subst h
    have hvalue : (zero false).signedNum = 0 := by simp [zero, signedNum, num]
    refine ⟨zero false, rfl, ?_⟩
    rw [hvalue, nearest_of_le (by decide), Int.zero_mul]
  · have hr : z.natAbs < 2 ^ 64 := by
      obtain ⟨hlow, hhigh⟩ := hz
      omega
    obtain ⟨x, hx, hneg, hnum⟩ := exists_ofRatio? (decide (z < 0)) (by omega) hr
    refine ⟨x, hx, ?_⟩
    rw [signedNum, nearest, hneg, hnum]
    by_cases hs : z < 0 <;> simp [hs]

/-! ## Whole numbers that are taken for each other -/

/-- From `2 ^ 53` on no whole number is rounded below it. -/
theorem le_natAbs_nearest {z : Int} (h : 2 ^ 53 ≤ z.natAbs) : 2 ^ 53 ≤ (nearest z).natAbs := by
  have hz : z.natAbs ≠ 0 := by omega
  have hlog : 53 ≤ z.natAbs.log2 := (Nat.le_log2 hz).mpr h
  have hlow := (significand_bounds hz).1
  rw [Nat.sub_eq_zero_of_le (by omega), Nat.pow_zero, Nat.mul_one] at hlow
  have hspacing : 2 ≤ spacing z.natAbs := by
    have hpow : 2 ^ 1 ≤ spacing z.natAbs := Nat.pow_le_pow_right (by decide) (by omega)
    exact hpow
  have hle := Nat.mul_le_mul hlow hspacing
  simp only [nearest]
  split <;> omega

theorem le_of_merges {a b : Int} (hne : a ≠ b) (h : Merges a b) : 2 ^ 53 ≤ a.natAbs := by
  rw [merges_iff] at h
  by_contra hsmall
  have ha := nearest_of_le (z := a) (by omega)
  by_cases hb : b.natAbs ≤ 2 ^ 53
  · exact hne (ha.symm.trans (h.trans (nearest_of_le hb)))
  · have hle := le_natAbs_nearest (z := b) (by omega)
    rw [← h, ha] at hle
    omega

theorem Merges.symm {a b : Int} (h : Merges a b) : Merges b a :=
  merges_iff.mpr (merges_iff.mp h).symm

/-- In the range of 64 bits the doubles are at most 2048 apart. -/
theorem natAbs_sub_nearest_le {z : Int} (hz : Number.InRange z) :
    (z - nearest z).natAbs ≤ 1024 := by
  have hspacing : spacing z.natAbs ≤ 2 ^ 11 := by
    refine Nat.pow_le_pow_right (by decide) ?_
    by_cases h : z.natAbs = 0
    · simp [h]
    · obtain ⟨hlow, hhigh⟩ := hz
      have hlog : z.natAbs.log2 < 64 := (Nat.log2_lt h).mpr (by omega)
      omega
  obtain ⟨m, hm, hw⟩ := nearestDouble_nearest z
  have hnear := hm.near
  omega

end Binary64

namespace Number

theorem same_int_iff {a b : Int} {ha : InRange a} {hb : InRange b} :
    (int a ha).same (int b hb) = true ↔ Binary64.Merges a b := by
  rw [Binary64.merges_iff]
  obtain ⟨x, hx, hvx⟩ := Binary64.exists_ofInt? ha
  obtain ⟨y, hy, hvy⟩ := Binary64.exists_ofInt? hb
  have hpos : (x.den : Int) * y.den ≠ 0 := by
    have hx := x.den_pos
    have hy := y.den_pos
    positivity
  simp only [same, toBinary64?, hx, hy]
  rw [Binary64.equal_iff_exact, hvx, hvy, Int.mul_assoc, Int.mul_assoc, Int.mul_comm (y.den : Int)]
  exact ⟨Int.eq_of_mul_eq_mul_right hpos, fun h => by rw [h]⟩

end Number
end ItemShape
