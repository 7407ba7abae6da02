import ItemShape.Path
import ItemShape.Proofs.Json.Resolve
import Mathlib.Data.List.Perm.Subperm

/-!
# ItemShape.Proofs.Path

What `==`, the digest and the text of a path say about its segments.

* `beq_iff_perm`: the comparison counts the segments of one side only, and yet it finds
  exactly the paths with the same segments in some order. The length makes up for the other side.
* `digest_eq_of_perm`: the order does not count for the digest, whatever the segments hash to.
* `display_of_names`: a path of names is shown as the pointer with these tokens, the root apart.
-/

namespace ItemShape
namespace ValuePath

variable {p q : ValuePath}

/-! ## Comparison -/

/-- Every segment of the first path is in the second as often, and the second path has no further
ones. -/
theorem beq_iff_perm : (p == q) = true ↔ p.segments.Perm q.segments := by
  show p.sameSegments q = true ↔ p.segments.Perm q.segments
  simp only [sameSegments, Bool.and_eq_true, beq_iff_eq, List.all_eq_true]
  constructor
  · rintro ⟨hl, hc⟩
    have counted : List.Subperm p.segments q.segments :=
      List.subperm_ext_iff.mpr fun segment hs => Nat.le_of_eq (hc segment hs)
    exact counted.perm_of_length_le (Nat.le_of_eq hl.symm)
  · intro h
    exact ⟨h.length_eq, fun segment _ => h.count_eq segment⟩

theorem digest_eq_of_perm (segmentHash : Segment → UInt64) (h : p.segments.Perm q.segments) :
    p.digest segmentHash = q.digest segmentHash := by
  have swap (sum : UInt64) (s t : Segment) :
      sum + segmentHash s + segmentHash t = sum + segmentHash t + segmentHash s := by
    rw [UInt64.add_assoc, UInt64.add_comm (segmentHash s), ← UInt64.add_assoc]
  have sums : p.segments.foldl (fun sum segment => sum + segmentHash segment) 0 =
      q.segments.foldl (fun sum segment => sum + segmentHash segment) 0 :=
    h.foldl_eq' (fun s _ t _ sum => swap sum s t) 0
  rw [digest, digest, length, length, h.length_eq, sums]

/-- Paths are equal exactly if the segments of one are a permutation of those of the other. So `==`
is an equivalence, and equal paths have the same digest. -/
theorem equal_up_to_order :
    (∀ p q : ValuePath, (p == q) = true ↔ q.segments.Perm p.segments) ∧
      Equivalence (fun p q : ValuePath => (p == q) = true) ∧
      ∀ (segmentHash : Segment → UInt64) (p q : ValuePath), (p == q) = true →
        p.digest segmentHash = q.digest segmentHash := by
  refine ⟨fun p q => ?_, ⟨fun p => ?_, fun h => ?_, fun h h' => ?_⟩, fun segmentHash p q h => ?_⟩
  · rw [beq_iff_perm, List.perm_comm]
  · exact beq_iff_perm.mpr (List.Perm.refl _)
  · exact beq_iff_perm.mpr (beq_iff_perm.mp h).symm
  · exact beq_iff_perm.mpr ((beq_iff_perm.mp h).trans (beq_iff_perm.mp h'))
  · exact digest_eq_of_perm segmentHash (beq_iff_perm.mp h)

/-- A name that occurs twice, before and behind an index that is written like it. -/
theorem equal_up_to_order_repeated_name :
    let p := ((root.member "0").index 0).member "0"
    let q := ((root.member "0").member "0").index 0
    (p == q) = true ∧ q.segments.Perm p.segments ∧ (q == p) = true ∧
      ((root.member "0").index 0 == (root.index 0).index 0) = false ∧
      p.digest (fun segment => segment.display.hash) =
        q.digest (fun segment => segment.display.hash) := by
  intro p q
  obtain ⟨permuted, equivalence, digests⟩ := equal_up_to_order
  have h : (p == q) = true := by decide
  exact ⟨h, (permuted p q).mp h, equivalence.symm h, by decide, digests _ p q h⟩

/-! ## Text -/

/-- The path enters attributes and record entries only. -/
def Named (path : ValuePath) : Prop :=
  ∀ segment ∈ path.segments, ∃ name, segment = .member name

theorem Named.exists_names (h : p.Named) : ∃ names, p = ⟨List.map Segment.member names⟩ := by
  obtain ⟨segments⟩ := p
  induction segments with
  | nil => exact ⟨[], rfl⟩
  | cons segment rest ih =>
    obtain ⟨name, rfl⟩ := h segment List.mem_cons_self
    obtain ⟨names, hn⟩ := ih fun other ho => h other (List.mem_cons_of_mem _ ho)
    cases hn
    exact ⟨name :: names, rfl⟩

theorem display_root : root.display = "/" :=
  rfl

theorem display_of_names {names : List String} (hn : names ≠ []) :
    display ⟨names.map Segment.member⟩ = Pointer.ofTokens names := by
  have shown : (isRoot ⟨names.map Segment.member⟩) = false := by
    cases names with
    | nil => exact absurd rfl hn
    | cons name rest => rfl
  rw [display, shown, if_neg Bool.false_ne_true, List.map_map, String.join, List.foldl_map]
  simp only [Function.comp_apply, Segment.display, ← String.append_assoc]
  rfl

theorem ofTokens_eq_slash_iff {names : List String} :
    Pointer.ofTokens names = "/" ↔ names = [""] := by
  have shown : Pointer.ofTokens [""] = "/" := rfl
  rw [← shown, Pointer.ofTokens_injective.eq_iff]

theorem display_names_eq_iff {names others : List String} :
    display ⟨names.map Segment.member⟩ = display ⟨others.map Segment.member⟩ ↔
      names = others ∨ (names = [] ∧ others = [""]) ∨ (names = [""] ∧ others = []) := by
  by_cases hn : names = []
  · subst hn
    by_cases ho : others = []
    · subst ho
      simp
    · rw [List.map_nil, display_of_names ho, ← root, display_root, eq_comm, ofTokens_eq_slash_iff]
      simp [Ne.symm ho]
  · by_cases ho : others = []
    · subst ho
      rw [List.map_nil, display_of_names hn, ← root, display_root, ofTokens_eq_slash_iff]
      simp [hn]
    · rw [display_of_names hn, display_of_names ho, Pointer.ofTokens_injective.eq_iff]
      simp [hn, ho]

/-- Paths of names have the same text exactly if they have the same names in the same order, or one
is the root and the other a single empty name. -/
theorem display_eq_iff (hp : p.Named) (hq : q.Named) :
    p.display = q.display ↔ p.segments = q.segments ∨
      (p = root ∧ q = root.member "") ∨ (p = root.member "" ∧ q = root) := by
  obtain ⟨names, rfl⟩ := hp.exists_names
  obtain ⟨others, rfl⟩ := hq.exists_names
  have named : Function.Injective (List.map Segment.member) :=
    List.map_injective_iff.mpr fun name other h => Segment.member.inj h
  have atRoot (names : List String) :
      (⟨names.map Segment.member⟩ : ValuePath) = root ↔ names = [] := by
    simp [root]
  have atEmptyName (names : List String) :
      (⟨names.map Segment.member⟩ : ValuePath) = root.member "" ↔ names = [""] := by
    have single : root.member "" = ⟨[""].map Segment.member⟩ := rfl
    rw [single, mk.injEq, named.eq_iff]
  rw [display_names_eq_iff, named.eq_iff, atRoot, atRoot, atEmptyName, atEmptyName]

/-- A name that looks like an escaped slash is not shown like a slash, and the empty name is shown
like the root. -/
theorem display_eq_iff_escaped_name :
    let p := root.member "~1"
    let q := root.member "/"
    p.Named ∧ q.Named ∧ p.display = "/~01" ∧ q.display = "/~1" ∧ p.display ≠ q.display ∧
      (root.member "").Named ∧ root.Named ∧ (root.member "").display = root.display := by
  intro p q
  have one (name : String) : (root.member name).Named :=
    List.forall_mem_singleton.mpr ⟨name, rfl⟩
  have none : root.Named := List.forall_mem_nil _
  refine ⟨one _, one _, rfl, rfl, fun h => ?_, one _, none,
    (display_eq_iff (one _) none).mpr (.inr (.inr ⟨rfl, rfl⟩))⟩
  have alternatives := (display_eq_iff (one _) (one _)).mp h
  simp [root, member, extend] at alternatives

end ValuePath
end ItemShape
