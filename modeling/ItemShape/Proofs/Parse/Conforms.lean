import ItemShape.Proofs.Parse.Conservative
import ItemShape.Proofs.Parse.Steps
import ItemShape.Proofs.Value.Same

/-!
# ItemShape.Proofs.Parse.Conforms

The values a schema describes, said without parsing (`Conforms`), and that the first step accepts
exactly these (`fills_iff_conforms`).

The checks of a node see its filled value, whose entries stand in declaration order, and not the
input. Enumerations do not tell the two apart, as they are equal; validators must not either
(`Schema.Uniform`).
-/

namespace ItemShape

def ScalarKind.Holds : ScalarKind → Value → Prop
  | .any, v => v.operation? = none
  | .null, v => v = .null
  | .boolean, v => ∃ b, v = .bool b
  | .number, v => ∃ n, v = .number n
  | .string, v => ∃ s, v = .string s

/-- The enumeration of the node and its validator for the mode allow the value. -/
structure Props.Allow (props : Props) (mode : Mode) (v : Value) : Prop where
  enumerated : ∀ allowed, props.enumerated = some allowed →
    ∃ candidate ∈ allowed, candidate.same v = true
  valid : ∀ validator, props.validators.get? mode = some validator → validator v = .valid

mutual

/-- The value, `none` being an absent one, is what the schema describes. -/
inductive Conforms (mode : Mode) : Schema → Option Value → Prop where
  | absent {props : Props} {kind : Kind Schema}
    (optional : props.required.isRequired mode = false) :
    Conforms mode (.mk props kind) none
  | present {props : Props} {kind : Kind Schema} {v : Value} (fits : Fits mode kind v)
    (allowed : props.Allow mode v) : Conforms mode (.mk props kind) (some v)

inductive Fits (mode : Mode) : Kind Schema → Value → Prop where
  | scalar {kind : ScalarKind} {v : Value} (holds : kind.Holds v) : Fits mode (.scalar kind) v
  | set {elements : Schema} {members : List Value}
    (unique : members.Pairwise fun v w => v.same w = false)
    (each : ∀ member ∈ members, Conforms mode elements (some member)) :
    Fits mode (.set elements) (.list members)
  | list {elements : Schema} {items : List Value}
    (each : ∀ item ∈ items, Conforms mode elements (some item)) :
    Fits mode (.list elements) (.list items)
  | record {keys elements : Schema} {entries : List (String × Value)}
    (named : ∀ entry ∈ entries, Conforms mode keys (some (.string entry.1)))
    (each : ∀ entry ∈ entries, Conforms mode elements (some entry.2)) :
    Fits mode (.record keys elements) (.map entries)
  | anyOf {members : List Schema} {member : Schema} {v : Value} (accepts : member ∈ members)
    (conforms : Conforms mode member (some v)) : Fits mode (.anyOf members) v
  /-- Maps and items. -/
  | attributes {kind : Kind Schema} {attributes : List (String × Schema)}
    {entries : List (String × Value)} (declares : kind.attributes? = some attributes)
    (declared : Entries.names entries ⊆ Entries.names attributes)
    (each : ∀ entry ∈ attributes, Conforms mode entry.2 (Entries.get? entry.1 entries)) :
    Fits mode kind (.map entries)

end

/-- No validator of the mode tells equal values apart. -/
def Schema.Uniform (mode : Mode) (schema : Schema) : Prop :=
  schema.Everywhere fun node => ∀ validator, node.validator? mode = some validator → ∀ v w,
    v.DistinctNames → w.DistinctNames → v.equal w = true →
      (validator v = .valid ↔ validator w = .valid)

/-! ## Checks -/

theorem scalarMatches_iff {kind : ScalarKind} {v : Value} :
    scalarMatches kind v = true ↔ kind.Holds v := by
  cases kind <;> cases v <;> simp [scalarMatches, ScalarKind.Holds, Value.operation?]

theorem checkEnumerated_ok_iff {enumerated : Option (List Value)} {path : ValuePath} {v : Value} :
    checkEnumerated enumerated path v = .ok () ↔ ∀ allowed, enumerated = some allowed →
      ∃ candidate ∈ allowed, candidate.same v = true := by
  cases enumerated with
  | none => simp [checkEnumerated]
  | some allowed =>
    simp only [checkEnumerated]
    split
    · rename_i ha
      simpa using ha
    · rename_i ha
      simpa using ha

theorem checkValidator_ok_iff {validator : Option Validator} {kind : KindName} {path : ValuePath}
    {v : Value} : checkValidator validator kind path v = .ok () ↔
      ∀ check, validator = some check → check v = .valid := by
  cases validator with
  | none => simp [checkValidator]
  | some check =>
    simp only [checkValidator]
    split
    · rename_i hv
      simp [hv]
    · rename_i hv
      simp [hv]

theorem checkFilled_ok_iff {props : Props} {kind : KindName} {settings : Settings}
    {filled : Filled} {w : Value} (hw : filled.value? = some w) :
    checkFilled props kind settings filled = .ok () ↔ props.Allow settings.mode w := by
  simp only [checkFilled, hw]
  constructor
  · intro h
    split at h
    · cases h
    · rename_i he
      exact ⟨checkEnumerated_ok_iff.mp he, checkValidator_ok_iff.mp h⟩
  · rintro ⟨he, hv⟩
    rw [checkEnumerated_ok_iff.mpr he]
    exact checkValidator_ok_iff.mpr hv

/-- The checks of a node do not tell equal values apart. -/
theorem Schema.Uniform.allow_iff {props : Props} {kind : Kind Schema} {mode : Mode} {v w : Value}
    (hu : (Schema.mk props kind).Uniform mode) (hd : v.DistinctNames) (hd' : w.DistinctNames)
    (he : v.equal w = true) : props.Allow mode v ↔ props.Allow mode w := by
  have he' : w.equal v = true := Value.equal_symm hd hd' he
  have verdict : ∀ validator, props.validators.get? mode = some validator →
      (validator v = .valid ↔ validator w = .valid) :=
    fun validator hv => hu.root validator hv v w hd hd' he
  constructor
  · intro h
    refine ⟨fun allowed ha => ?_, fun validator hv => (verdict validator hv).mp (h.valid _ hv)⟩
    obtain ⟨candidate, hc, hs⟩ := h.enumerated allowed ha
    exact ⟨candidate, hc, Value.same_of_same_of_equal hs he⟩
  · intro h
    refine ⟨fun allowed ha => ?_, fun validator hv => (verdict validator hv).mpr (h.valid _ hv)⟩
    obtain ⟨candidate, hc, hs⟩ := h.enumerated allowed ha
    exact ⟨candidate, hc, Value.same_of_same_of_equal hs he'⟩

/-! ## Kinds -/

/-- The schema accepts what conforms to it and nothing else, wherever it stands. -/
def Schema.Decides (schema : Schema) (settings : Settings) : Prop :=
  ∀ path scope input, (∀ v, input = some v → v.DistinctNames) →
    ((∃ filled, fillNode schema none (settings.at path) scope input = .ok filled) ↔
      Conforms settings.mode schema input)

section Kinds

variable {kind : Kind Schema} {transformer : Option Transformer} {settings : Settings}
  {scope : Option LinkContext} {v : Value}

theorem fits_of_fillKind {filled : Filled} (hmode : settings.mode ≠ .key)
    (each : ∀ schema ∈ kind.children, schema.Decides settings) (hd : v.DistinctNames)
    (h : fillKind kind transformer none settings scope v = .ok filled) :
    Fits settings.mode kind v := by
  have child : ∀ schema ∈ kind.children, ∀ path {scope v filled}, v.DistinctNames →
      fillNode schema none (settings.at path) scope (some v) = .ok filled →
        Conforms settings.mode schema (some v) := by
    intro schema hm path scope v filled hd h
    exact (each schema hm path scope (some v) fun _ hv => by cases hv; exact hd).mp ⟨filled, h⟩
  have named : ∀ attributes, kind.attributes? = some attributes → Fits settings.mode kind v := by
    intro attributes hk
    obtain ⟨input, slots, rfl, -, hu, hs⟩ := fillKind_attributes_ok hk h
    rw [Value.distinctNames_map] at hd
    rw [Kind.parsed_of_not_keyOnly (by simp [Kind.keyOnly, hmode])] at hs
    refine .attributes hk hu fun entry he => ?_
    obtain ⟨slot, _, hslot⟩ := exists_of_forall₂_left hs entry he
    obtain ⟨path, context, hf⟩ := hslot.content
    refine (each entry.2 (Kind.mem_children hk he) path (some context) _ fun v hv => ?_).mp ⟨_, hf⟩
    exact hd.2 _ (Entries.mem_of_get? hv)
  cases kind with
  | scalar kind => exact .scalar (scalarMatches_iff.mp (fillKind_scalar_ok_iff.mp h).1)
  | set elements =>
    obtain ⟨members, fs, rfl, -, hu, hs⟩ := fillKind_set_ok h
    rw [Value.distinctNames_list] at hd
    refine .set (Value.hasDuplicates_eq_false_iff.mp hu) fun member hm => ?_
    obtain ⟨f, _, hf⟩ := exists_of_forall₂_left hs member hm
    exact child elements List.mem_cons_self settings.path (hd member hm) hf
  | list elements =>
    obtain ⟨items, fs, rfl, -, hs⟩ := fillKind_list_ok h
    rw [Value.distinctNames_list] at hd
    refine .list fun item hi => ?_
    obtain ⟨f, _, path, hf⟩ := exists_of_forall₂_left hs item hi
    exact child elements List.mem_cons_self path (hd item hi) hf
  | record keys elements =>
    obtain ⟨entries, fs, rfl, -, hs⟩ := fillKind_record_ok h
    rw [Value.distinctNames_map] at hd
    refine .record (fun entry he => ?_) fun entry he => ?_
    · obtain ⟨f, _, -, ⟨path, key, hf⟩, -⟩ := exists_of_forall₂_left hs entry he
      exact child keys List.mem_cons_self path trivial hf
    · obtain ⟨f, _, -, -, path, hf⟩ := exists_of_forall₂_left hs entry he
      exact child elements (by simp [Kind.children]) path (hd.2 entry he) hf
  | anyOf members =>
    obtain ⟨member, hm, hf⟩ := fillFirst_eq_some (fillKind_anyOf_ok_iff.mp h)
    exact .anyOf hm (child member hm settings.path hd hf)
  | map attributes => exact named attributes rfl
  | item attributes => exact named attributes rfl

theorem exists_fillKind_of_fits (each : ∀ schema ∈ kind.children, schema.Decides settings)
    (hd : v.DistinctNames) (h : Fits settings.mode kind v) :
    ∃ filled, fillKind kind transformer none settings scope v = .ok filled := by
  have child : ∀ schema ∈ kind.children, ∀ path scope {v}, v.DistinctNames →
      Conforms settings.mode schema (some v) →
        ∃ filled, fillNode schema none (settings.at path) scope (some v) = .ok filled := by
    intro schema hm path scope v hd h
    exact (each schema hm path scope (some v) fun _ hv => by cases hv; exact hd).mpr h
  cases h with
  | scalar holds => exact ⟨_, fillKind_scalar_ok_iff.mpr ⟨scalarMatches_iff.mpr holds, rfl⟩⟩
  | set unique conforms =>
    rw [Value.distinctNames_list] at hd
    refine exists_fillKind_set (Value.hasDuplicates_eq_false_iff.mpr unique) fun member hm => ?_
    exact child _ List.mem_cons_self settings.path scope (hd member hm) (conforms member hm)
  | list conforms =>
    rw [Value.distinctNames_list] at hd
    refine exists_fillKind_list fun item hi path => ?_
    exact child _ List.mem_cons_self path scope (hd item hi) (conforms item hi)
  | record named conforms =>
    rw [Value.distinctNames_map] at hd
    refine exists_fillKind_record (fun entry he path => ?_) fun entry he path => ?_
    · exact child _ List.mem_cons_self path none trivial (named entry he)
    · exact child _ (by simp [Kind.children]) path scope (hd.2 entry he) (conforms entry he)
  | @anyOf members member v accepts conforms =>
    obtain ⟨filled, hf⟩ := exists_fillFirst accepts
      (child member accepts settings.path scope hd conforms)
    exact ⟨filled, fillKind_anyOf_ok_iff.mpr hf⟩
  | attributes declares declared conforms =>
    rw [Value.distinctNames_map] at hd
    refine exists_fillKind_attributes declares declared fun entry he path context => ?_
    have hm := (Kind.parsed_sublist _ _ _).subset he
    refine (each entry.2 (Kind.mem_children declares hm) path (some context) _ fun v hv => ?_).mpr
      (conforms entry hm)
    exact hd.2 _ (Entries.mem_of_get? hv)

end Kinds

/-- By induction on the schema: a node accepts what its kind accepts and its checks allow. -/
theorem Schema.decides {schema : Schema} (wf : schema.WellFormed) {settings : Settings}
    (hfill : settings.fill = false) (hmode : settings.mode ≠ .key)
    (hu : schema.Uniform settings.mode) : schema.Decides settings := by
  induction schema using Schema.induct with
  | node props kind ih =>
    intro path scope input hd
    have each : ∀ schema ∈ kind.children, schema.Decides (settings.at path) :=
      fun schema hm => ih schema hm (wf.child hm) (hu.child hm)
    have hfill : (settings.at path).fill = false := hfill
    have hmode : (settings.at path).mode ≠ .key := hmode
    cases input with
    | none =>
      have absent : resolved props (settings.at path) scope none = none := by
        simp [resolved, hfill]
      constructor
      · rintro ⟨filled, h⟩
        exact .absent ((fillNode_absent_ok_iff rfl absent).mp h).1
      · rintro ⟨optional⟩
        exact ⟨.absent, (fillNode_absent_ok_iff rfl absent).mpr ⟨optional, rfl⟩⟩
    | some v =>
      have hd : v.DistinctNames := hd v rfl
      -- What the checks see is equal to the input.
      have checked : ∀ filled,
          fillKind kind props.transformer none (settings.at path) scope v = .ok filled →
            (checkFilled props kind.name (settings.at path) filled = .ok () ↔
              props.Allow settings.mode v) := by
        intro filled hk
        obtain ⟨w, hw, he, hd'⟩ := fillKind_equal wf hfill hmode hd hk
        rw [checkFilled_ok_iff hw]
        exact (hu.allow_iff hd hd' he).symm
      constructor
      · rintro ⟨filled, h⟩
        obtain ⟨hk, hc⟩ := fillNode_some_ok_iff.mp h
        have fits : Fits (settings.at path).mode kind v := fits_of_fillKind hmode each hd hk
        exact .present fits ((checked filled hk).mp hc)
      · rintro ⟨⟩
        rename_i allowed fits
        obtain ⟨filled, hk⟩ := exists_fillKind_of_fits each hd fits
        exact ⟨filled, fillNode_some_ok_iff.mpr ⟨hk, (checked filled hk).mpr allowed⟩⟩

/-- Without filling and without an extension, the first step accepts exactly what conforms. -/
theorem fills_iff_conforms {schema : Schema} {options : ParseOptions} {input : Option Value}
    (hb : schema.Built) (hx : options.extension = none) (hfill : options.fill = false)
    (hmode : options.mode ≠ .key) (hu : schema.Uniform options.mode)
    (hd : ∀ v, input = some v → v.DistinctNames) :
    (∃ f, schema.FillsTo options input f) ↔ Conforms options.mode schema input := by
  rw [← Schema.decides hb.wellFormed hfill hmode hu options.path none input hd]
  simp only [Schema.fillsTo_iff, hx]
  constructor
  · rintro ⟨f, filled, h, -⟩
    exact ⟨filled, h⟩
  · rintro ⟨filled, h⟩
    exact ⟨_, filled, h, rfl⟩

/-- A list that must not be empty. -/
theorem fills_iff_conforms_nonempty_list :
    let nonempty : Validator := fun v =>
      match v with
      | .list [] => .invalid none
      | _ => .valid
    let schema := (Schema.ofKind (.list (.scalar .string))).validateIn .put nonempty
    let options : ParseOptions := { ParseOptions.ofMode .put with fill := false }
    (∃ f, schema.FillsTo options (some (.list [.string "a"])) f) ↔
      Conforms .put schema (some (.list [.string "a"])) := by
  intro nonempty schema options
  have built : schema.Built := .withProps (.list (.scalar .string) rfl) fun props =>
    { props with validators := props.validators.set .put nonempty }
  have verdict : ∀ v, nonempty v = .valid ↔ v ≠ .list [] := by
    intro v
    cases v with
    | list items => cases items <;> simp [nonempty]
    | _ => simp [nonempty]
  have empty : ∀ {v w : Value}, v.equal w = true → v = .list [] → w = .list [] := by
    rintro _ w he rfl
    obtain ⟨ws, rfl, hs⟩ := Value.equal_list_iff.mp he
    cases hs
    rfl
  have uniform : schema.Uniform .put := by
    refine Schema.everywhere_iff.mpr ⟨fun validator hv v w hd hd' he => ?_, fun child hc => ?_⟩
    · cases hv
      rw [verdict, verdict]
      exact not_congr ⟨empty he, empty (Value.equal_symm hd hd' he)⟩
    · cases List.mem_singleton.mp hc
      refine Schema.everywhere_iff.mpr ⟨?_, fun child hc => by cases hc⟩
      intro validator hv
      cases hv
  have distinct : ∀ v, some (Value.list [.string "a"]) = some v → v.DistinctNames := by
    intro v hv
    cases hv
    exact ⟨trivial, trivial⟩
  have writes : options.mode ≠ .key := by decide
  exact fills_iff_conforms built rfl rfl writes uniform distinct

end ItemShape
