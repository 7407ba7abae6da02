import ItemShape.Proofs.Format.Restore
import ItemShape.Proofs.Parse.ScalarSet

/-!
# ItemShape.Proofs.Format.Unique

Members of a set stay apart on the way to storage and back (`set_members_apart`). Duplicates are
looked for once, before anything is encoded. Prefixes and suffixes do not bring members together:
no two strings are encoded as one string, and nothing else is a string once it is encoded
(`Transformer.Affix.same_encode`). Decoding the stored members gives the members back.
-/

namespace ItemShape

namespace Value

theorem same_string_iff {s : String} {w : Value} : same (.string s) w = true ↔ w = .string s := by
  cases w with
  | string t =>
    simp only [same, equal, beq_iff_eq, Value.string.injEq]
    exact eq_comm
  | _ => simp [same, equal]

theorem same_string_right_iff {v : Value} {s : String} :
    same v (.string s) = true ↔ v = .string s := by
  cases v <;> simp [same, equal]

end Value

namespace Transformer

variable {transformer : Transformer}

/-- Strings are encoded as strings and other values as they are. -/
theorem Affix.encode_cases (h : transformer.Affix) (v : Value) :
    (∃ s encoded, v = .string s ∧ transformer.encode v = .string encoded) ∨
      (∀ s, v ≠ .string s) ∧ transformer.encode v = v := by
  cases h <;> cases v <;> simp [encode]

theorem Affix.same_encode (h : transformer.Affix) (v w : Value) :
    (transformer.encode v).same (transformer.encode w) = v.same w := by
  rw [Bool.eq_iff_iff]
  rcases h.encode_cases v with ⟨s, encoded, rfl, hs⟩ | ⟨hv, hs⟩
  · rw [hs, Value.same_string_iff, Value.same_string_iff, ← hs]
    constructor
    · intro he
      rw [← h.faithful.decodes w, he, h.faithful.decodes]
    · rintro rfl
      rfl
  · rw [hs]
    rcases h.encode_cases w with ⟨s, encoded, rfl, hw⟩ | ⟨-, hw⟩
    · rw [hw, Value.same_string_right_iff, Value.same_string_right_iff]
      exact ⟨fun he => absurd he (hv _), fun he => absurd he (hv _)⟩
    · rw [hw]

end Transformer

theorem pairwise_apart_encodeWith {transformer : Option Transformer}
    (affix : ∀ given, transformer = some given → given.Affix) {members : List Value}
    (h : members.Pairwise Value.Apart) :
    (members.map (Filled.encodeWith transformer)).Pairwise Value.Apart := by
  cases transformer with
  | none =>
    have hid : members.map (Filled.encodeWith none) = members := List.map_id members
    rwa [hid]
  | some given =>
    have same := (affix given rfl).same_encode
    refine List.pairwise_map.mpr (h.imp fun {v w} hvw => ⟨?_, ?_⟩)
    · exact (same v w).trans hvw.1
    · exact (same w v).trans hvw.2

theorem formatNode_scalar_ok {schema : Schema} {kind : ScalarKind} (hk : schema.kind = .scalar kind)
    {stored : Value} (hm : scalarMatches kind (decodeWith schema.transformer? stored) = true)
    (path : ValuePath) :
    formatNode schema path stored = .ok (decodeWith schema.transformer? stored) := by
  obtain ⟨props, _⟩ := schema
  cases hk
  rw [formatNode, formatKind]
  exact if_pos hm

theorem format_encoded_scalars {schema elements : Schema} {kind : ScalarKind}
    (hk : schema.kind = .set elements) (he : elements.kind = .scalar kind)
    (faithful : ∀ given, elements.transformer? = some given → given.Faithful)
    {members : List Value} (hm : ∀ member ∈ members, scalarMatches kind member = true) :
    schema.format (.list (members.map (Filled.encodeWith elements.transformer?))) =
      .ok (.list members) := by
  obtain ⟨props, _⟩ := schema
  cases hk
  have decoded : List.Forall₂ (fun stored v => ∀ path, formatNode elements path stored = .ok v)
      (members.map (Filled.encodeWith elements.transformer?)) members := by
    refine List.forall₂_map_left_iff.mpr (List.forall₂_same.mpr fun member hmember path => ?_)
    have restored := decodeWith_encodeWith faithful member
    rw [formatNode_scalar_ok he (restored.symm ▸ hm member hmember), restored]
  have formatted : formatItems (fun _ member => formatNode elements .root member) .root 0
      (members.map (Filled.encodeWith elements.transformer?)) = .ok members :=
    formatItems_ok (decoded.imp fun _ _ h _ => h _) 0
  rw [Schema.format, formatNode, formatKind_set_eq, formatted]
  rfl

/-- At the root no link runs, so a value that is not given is the default. -/
theorem distinctNames_of_resolved {props : Props} {settings : Settings} {input : Option Value}
    {v : Value} (hi : ∀ w, input = some w → w.DistinctNames)
    (hd : ∀ default, props.defaults.get? settings.mode = some default →
      default.resolve.DistinctNames)
    (hr : resolved props settings none input = some v) : v.DistinctNames := by
  cases input with
  | some w =>
    cases hr
    exact hi v rfl
  | none =>
    rcases resolved_none_cases hr with ⟨_, _, _, hscope, _⟩ | ⟨default, hdefault, rfl⟩
    · cases hscope
    · exact hd default hdefault

/-- A set of scalars with a prefix, a suffix or no transformer: the members it is filled with, those
that are stored and those that formatting gives back are apart from each other. -/
theorem set_members_apart {schema elements : Schema} {kind : ScalarKind} {options : ParseOptions}
    {input : Option Value} {v : Value} (hk : schema.kind = .set elements)
    (he : elements.kind = .scalar kind)
    (affix : ∀ given, elements.transformer? = some given → given.Affix)
    (hx : options.extension = none) (hi : ∀ w, input = some w → w.DistinctNames)
    (hd : ∀ default, schema.default? options.mode = some default → default.resolve.DistinctNames)
    (h : schema.parse options input = .ok (some v)) :
    ∃ members stored, schema.FillsTo options input (some (.list members)) ∧
      members.Pairwise Value.Apart ∧ stored.Pairwise Value.Apart ∧
        v = .list (if options.transform then stored else members) ∧
          schema.format (.list stored) = .ok (.list members) := by
  obtain ⟨props, _⟩ := schema
  cases hk
  obtain ⟨filled, hf, ht⟩ := parse_ok_iff.mp h
  have unextended : fillNode (.mk props (.set elements)) none options.toSettings none input =
      .ok filled := hx ▸ hf
  rcases fillNode_scalars_ok he unextended with ⟨-, rfl⟩ | ⟨members, hr, rfl, unique, hm⟩
  · cases htransform : options.transform <;> rw [htransform] at ht <;> cases ht
  · have distinct : (Value.list members).DistinctNames := distinctNames_of_resolved hi hd hr
    have apart := (Value.hasDuplicates_eq_false_iff_apart
      (Value.distinctNames_list.mp distinct)).mp unique
    rw [Filled.parsed_ofScalars] at ht
    cases ht
    exact ⟨members, members.map (Filled.encodeWith elements.transformer?),
      Schema.fillsTo_iff.mpr ⟨_, hf, Filled.value?_ofScalars _ _⟩, apart,
      pairwise_apart_encodeWith affix apart, rfl,
      format_encoded_scalars rfl he (fun given hg => (affix given hg).faithful) hm⟩

/-- A member that is the encoded form of another one, beside a map and a number. -/
theorem set_members_apart_encoded_member :
    let elements := (Schema.scalar .any).transform (.addSuffix "v" "#")
    let schema := Schema.ofKind (.set elements)
    let options := ParseOptions.ofMode .put
    let others := [Value.map [("a", .string "a")], .number (.int 1 (by decide))]
    let members := .string "a" :: .string "a#v" :: others
    let stored := .string ("a" ++ "#" ++ "v") :: .string ("a#v" ++ "#" ++ "v") :: others
    schema.parse options (some (.list members)) = .ok (some (.list stored)) ∧
      members.Pairwise Value.Apart ∧ stored.Pairwise Value.Apart ∧
        schema.format (.list stored) = .ok (.list members) := by
  intro elements schema options others members stored
  have parsed : schema.parse options (some (.list members)) = .ok (some (.list stored)) := rfl
  have distinct : ∀ w, some (Value.list members) = some w → w.DistinctNames := by
    intro w hw
    cases hw
    simp [members, others, Value.DistinctNames, Value.ItemsDistinct, Value.EntriesDistinct,
      Entries.Distinct, Entries.names]
  have affix : ∀ given, elements.transformer? = some given → given.Affix := by
    intro given hg
    cases hg
    exact .behind "v" "#"
  obtain ⟨filled, kept, ⟨rest, hfilled⟩, apart, apart', hkept, formatted⟩ :=
    set_members_apart rfl rfl affix rfl distinct (fun _ hn => by cases hn) parsed
  cases hfilled
  have hkept : stored = kept := Value.list.inj hkept
  rw [← hkept] at apart' formatted
  exact ⟨parsed, apart, apart', formatted⟩

end ItemShape
