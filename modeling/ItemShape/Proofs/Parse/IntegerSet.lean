import ItemShape.Proofs.Number.Nearest
import ItemShape.Proofs.Parse.ScalarSet
import ItemShape.Proofs.Value.Notation

/-!
# ItemShape.Proofs.Parse.IntegerSet

Sets of whole numbers. Members are compared as doubles, so two whole numbers count as duplicates if
one double is nearest to both (`integer_set_parse`). Different ones are then large and close to each
other (`Integer.apart_of_far`); the first such pair is the one right above `2 ^ 53`
(`integer_set_refused`).
-/

namespace ItemShape

/-- The whole numbers of 64 bits, signed or unsigned. -/
abbrev Integer : Type :=
  {z : Int // Number.InRange z}

namespace Integer

def toNumber (z : Integer) : Number :=
  .int z.1 z.2

def toValue (z : Integer) : Value :=
  .number z.toNumber

def toJson (z : Integer) : Json :=
  .number z.toNumber

/-- No double is nearest to both. -/
def Apart (a b : Integer) : Prop :=
  ¬ Binary64.Merges a.1 b.1

theorem same_iff {a b : Integer} : a.toValue.same b.toValue = true ↔ ¬ a.Apart b := by
  rw [Apart, not_not]
  exact Number.same_int_iff

/-- Different whole numbers are apart unless both have magnitudes of at least `2 ^ 53` and they are at
most 2048 apart. -/
theorem apart_of_far {a b : Integer} (hne : a ≠ b)
    (far : 2 ^ 53 ≤ a.1.natAbs → 2 ^ 53 ≤ b.1.natAbs → 2048 < (a.1 - b.1).natAbs) : a.Apart b := by
  intro merged
  have hne : a.1 ≠ b.1 := fun h => hne (Subtype.ext h)
  have hfar := far (Binary64.le_of_merges hne merged) (Binary64.le_of_merges hne.symm merged.symm)
  have hnear := Binary64.natAbs_sub_nearest_le a.2
  have hnear' := Binary64.natAbs_sub_nearest_le b.2
  have hsame := Binary64.merges_iff.mp merged
  omega

theorem hasDuplicates_iff {zs : List Integer} :
    Value.hasDuplicates (zs.map toValue) = false ↔ zs.Pairwise Apart := by
  rw [Value.hasDuplicates_eq_false_iff, List.pairwise_map]
  simp only [← Bool.not_eq_true, same_iff, not_not]

theorem ofOperationJson_toJson (zs : List Integer) :
    Value.ofOperationJson (.array (zs.map toJson)) = .list (zs.map toValue) := by
  rw [Value.ofOperationJson_array, List.map_map]
  rfl

end Integer

/-- The node has no enumeration, and no validator for the mode. -/
structure Schema.Unrestricted (mode : Mode) (schema : Schema) : Prop where
  enumerated : schema.props.enumerated = none
  validator : schema.validator? mode = none

theorem Schema.Unrestricted.allow {mode : Mode} {schema : Schema} (h : schema.Unrestricted mode)
    (v : Value) : schema.props.Allow mode v where
  enumerated allowed ha := by
    rw [h.enumerated] at ha
    cases ha
  valid validator hv := by
    have hn : schema.props.validators.get? mode = none := h.validator
    rw [hn] at hv
    cases hv

theorem Mode.consult_list (mode : Mode) (schema : Schema) (settings : Settings)
    (items : List Value) : Extension.consult mode.extension? schema settings (some (.list items)) =
      .unextended (some (.list items)) := by
  cases mode <;> rfl

/-- A list of whole numbers is a set if no double is nearest to two of them, and else it is refused
for its duplicates. Different whole numbers make a set where no two of magnitudes of at least
`2 ^ 53` are within 2048 of each other, and in general two are the same if they are not apart. -/
theorem integer_set_parse {schema elements : Schema} {options : ParseOptions}
    (hk : schema.kind = .set elements) (he : elements.kind = .scalar .number)
    (free : schema.Unrestricted options.mode) (each : elements.Unrestricted options.mode)
    (hx : options.extension = options.mode.extension?) (zs : List Integer) :
    let input := Value.ofOperationJson (.array (zs.map Integer.toJson))
    (zs.Pairwise Integer.Apart → schema.FillsTo options (some input) (some input) ∧
      ∃ t, schema.parse options (some input) = .ok (some t)) ∧
    (¬ zs.Pairwise Integer.Apart → schema.parse options (some input) =
      .error (.mismatch options.path "set of unique members" "duplicate members")) ∧
    ((zs.Pairwise fun a b => a ≠ b ∧
        (2 ^ 53 ≤ a.1.natAbs → 2 ^ 53 ≤ b.1.natAbs → 2048 < (a.1 - b.1).natAbs)) →
      zs.Pairwise Integer.Apart) ∧
    ∀ a b : Integer, a.toValue.same b.toValue = true ↔ ¬ a.Apart b := by
  intro input
  have read : input = .list (zs.map Integer.toValue) := Integer.ofOperationJson_toJson zs
  have handed : Extension.consult options.extension schema options.toSettings (some input) =
      .unextended (some input) := by
    rw [hx, read]
    exact Mode.consult_list _ _ _ _
  rw [read] at handed ⊢
  have numbers : ∀ member ∈ zs.map Integer.toValue, scalarMatches .number member = true := by
    intro member hm
    obtain ⟨z, -, rfl⟩ := List.mem_map.mp hm
    rfl
  refine ⟨fun apart => ?_, fun merged => ?_, fun far => far.imp fun h => Integer.apart_of_far h.1 h.2,
    fun a b => Integer.same_iff⟩
  · have filled : fillNode schema options.extension options.toSettings none
        (some (.list (zs.map Integer.toValue))) =
          .ok (.ofScalars elements.transformer? (zs.map Integer.toValue)) :=
      fillNode_unique hk handed he numbers (fun member _ => each.allow member) (free.allow _)
        (Integer.hasDuplicates_iff.mpr apart)
    exact ⟨Schema.fillsTo_iff.mpr ⟨_, filled, Filled.value?_ofScalars _ _⟩,
      _, parse_ok_iff.mpr ⟨_, filled, Filled.parsed_ofScalars _ _ _ _⟩⟩
  · have duplicates : Value.hasDuplicates (zs.map Integer.toValue) = true := by
      rw [← Bool.not_eq_false, Integer.hasDuplicates_iff]
      exact merged
    exact parse_duplicates hk handed duplicates

/-- The ends of the range, `2 ^ 53` and the next whole number that is a double. -/
theorem integer_set_parse_ends_of_range :
    let zs : List Integer := [⟨-9223372036854775808, by decide⟩, ⟨9007199254740992, by decide⟩,
      ⟨9007199254740994, by decide⟩, ⟨18446744073709551615, by decide⟩]
    let schema := Schema.ofKind (.set (.scalar .number))
    let options := ParseOptions.ofMode .update
    let input := Value.ofOperationJson (.array (zs.map Integer.toJson))
    zs.Pairwise Integer.Apart ∧ schema.FillsTo options (some input) (some input) ∧
      ∃ t, schema.parse options (some input) = .ok (some t) := by
  intro zs schema options input
  have apart : zs.Pairwise Integer.Apart := by
    refine List.Pairwise.imp ?_ (by decide : zs.Pairwise fun a b =>
      Binary64.nearest a.1 ≠ Binary64.nearest b.1)
    exact fun h merged => h (Binary64.merges_iff.mp merged)
  have unrestricted (kind : Kind Schema) : (Schema.ofKind kind).Unrestricted options.mode :=
    ⟨rfl, rfl⟩
  exact ⟨apart, (integer_set_parse rfl rfl (unrestricted _) (unrestricted _) rfl zs).1 apart⟩

/-- Two whole numbers next to each other that no set holds both of. -/
theorem integer_set_refused :
    let a : Integer := ⟨9007199254740992, by decide⟩
    let b : Integer := ⟨9007199254740993, by decide⟩
    let schema := Schema.ofKind (.set (.scalar .number))
    a ≠ b ∧ a.toValue.same b.toValue = true ∧ ∀ mode,
      schema.parse (.ofMode mode) (some (Value.ofOperationJson (.array [a.toJson, b.toJson]))) =
        .error (.mismatch .root "set of unique members" "duplicate members") := by
  intro a b schema
  have same : a.toValue.same b.toValue = true := by decide
  have duplicates : Value.hasDuplicates [a.toValue, b.toValue] = true := by
    simp [Value.hasDuplicates, same]
  refine ⟨by decide, same, fun mode => ?_⟩
  have read := Integer.ofOperationJson_toJson [a, b]
  rw [List.map_cons, List.map_singleton] at read
  rw [read]
  exact parse_duplicates rfl (Mode.consult_list mode schema _ _) duplicates

end ItemShape
