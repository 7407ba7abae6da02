import ItemShape.Proofs.Format.Restore

/-!
# ItemShape.Proofs.Format.Record

Formatting a record, key by key. The keys that come out are the decoded ones, each of them once
(`formatEntries_names`), and a value that comes later under a key replaces the earlier one.

Decoding leaves a key as it is where the text is missing that encoding adds. Such a key and the one
that does have the text are decoded to the same key (`KeysCollapse`), and one of the two entries is
lost without an error; storing refuses a second entry under one key. `format_record_length` says that
no entry is lost otherwise.
-/

namespace ItemShape

/-- One of the keys is what another one is decoded to, and is not decoded any further. -/
def KeysCollapse (keys : Option Transformer) (stored : List String) : Prop :=
  ∃ bare ∈ stored, ∃ encoded ∈ stored, encoded ≠ bare ∧
    decodeWith keys (.string bare) = .string bare ∧
      Filled.encodeWith keys (.string bare) = .string encoded

/-! ## Decoded keys -/

section Keys

variable {keys : Option Transformer} (affix : ∀ given, keys = some given → given.Affix)
  {stored : List String}

include affix

theorem decodeWith_string (s : String) : ∃ bare, decodeWith keys (.string s) = .string bare ∧
    (bare = s ∨ Filled.encodeWith keys (.string bare) = .string s) := by
  cases keys with
  | none => exact ⟨s, rfl, .inl rfl⟩
  | some given => exact (affix given rfl).decode_string s

theorem decodeWith_encodeWith_of_affix (v : Value) :
    decodeWith keys (Filled.encodeWith keys v) = v :=
  decodeWith_encodeWith (fun given h => (affix given h).faithful) v

theorem nodup_decoded_iff (hd : stored.Nodup) :
    (stored.map fun key => decodeWith keys (.string key)).Nodup ↔ ¬ KeysCollapse keys stored := by
  rw [List.nodup_map_iff_inj_on hd]
  constructor
  · rintro inj ⟨bare, hbare, encoded, hencoded, hne, hdecoded, hencode⟩
    refine hne (inj encoded hencoded bare hbare ?_)
    rw [← hencode, decodeWith_encodeWith_of_affix affix, hdecoded]
  · intro apart one hone other hother h
    by_contra hne
    obtain ⟨bare, hdecoded, hone'⟩ := decodeWith_string affix one
    obtain ⟨bare', hdecoded', hother'⟩ := decodeWith_string affix other
    rw [hdecoded, hdecoded'] at h
    cases h
    rcases hone' with rfl | hone'
    · rcases hother' with rfl | hother'
      · exact hne rfl
      · exact apart ⟨bare, hone, other, hother, Ne.symm hne, hdecoded, hother'⟩
    · rcases hother' with rfl | hother'
      · exact apart ⟨bare, hother, one, hone, hne, hdecoded', hone'⟩
      · rw [hone'] at hother'
        exact hne (Value.string.inj hother')

theorem not_keysCollapse_of_encoded
    (h : ∀ key ∈ stored, ∃ bare, Filled.encodeWith keys (.string bare) = .string key) :
    ¬ KeysCollapse keys stored := by
  rintro ⟨bare, hbare, encoded, -, hne, hdecoded, hencode⟩
  obtain ⟨inner, hinner⟩ := h bare hbare
  rw [← hinner, decodeWith_encodeWith_of_affix affix, hinner] at hdecoded
  cases hdecoded
  rw [hinner] at hencode
  exact hne (Value.string.inj hencode).symm

end Keys

/-! ## Formatted records -/

theorem get?_formatEntries_of_encoded {keys : Option Transformer}
    (affix : ∀ given, keys = some given → given.Affix)
    {formatElement : ValuePath → Value → Except SchemaError Value} {path : ValuePath}
    {done entries formatted : List (String × Value)} (hd : Entries.Distinct entries)
    (h : formatEntries keys formatElement path done entries = .ok formatted)
    (encoded : ∀ stored ∈ Entries.names entries,
      ∃ key, Filled.encodeWith keys (.string key) = .string stored)
    {stored key : String} {t : Value} (hm : (stored, t) ∈ entries)
    (hencode : Filled.encodeWith keys (.string key) = .string stored) :
    ∃ place w, formatElement place t = .ok w ∧ Entries.get? key formatted = some w := by
  have hdecode : decodeWith keys (.string stored) = .string key := by
    rw [← hencode, decodeWith_encodeWith_of_affix affix]
  refine get?_formatEntries hd h hm hdecode fun other hother hdecode => ?_
  obtain ⟨bare, hbare⟩ := encoded other hother
  rw [← hbare, decodeWith_encodeWith_of_affix affix] at hdecode
  rw [hdecode, hencode] at hbare
  exact (Value.string.inj hbare).symm

/-- A formatted record has an entry for each decoded key, and no two for one key. It has as many
entries as the stored map exactly if no two of the stored keys collapse. Keys that are all encoded,
as those that a parse stores, do not. -/
theorem format_record_length {schema keys elements : Schema} {path : ValuePath}
    {entries : List (String × Value)} {v : Value} (hk : schema.kind = .record keys elements)
    (affix : ∀ given, keys.transformer? = some given → given.Affix)
    (hd : Entries.Distinct entries) (h : formatNode schema path (.map entries) = .ok v) :
    ∃ formatted, v = .map formatted ∧ Entries.Distinct formatted ∧
      (∀ key, key ∈ Entries.names formatted ↔ ∃ stored ∈ Entries.names entries,
        decodeWith keys.transformer? (.string stored) = .string key) ∧
      (formatted.length = entries.length ↔
        ¬ KeysCollapse keys.transformer? (Entries.names entries)) ∧
      ((∀ stored ∈ Entries.names entries,
        ∃ key, Filled.encodeWith keys.transformer? (.string key) = .string stored) →
          formatted.length = entries.length) := by
  obtain ⟨props, kind⟩ := schema
  cases hk
  simp only [formatNode, formatKind] at h
  split at h
  · cases h
  · rename_i formatted hformat
    cases h
    have distinct : Entries.Distinct formatted :=
      formatEntries_distinct hformat List.nodup_nil
    have names (key : String) : key ∈ Entries.names formatted ↔
        ∃ stored ∈ Entries.names entries,
          decodeWith keys.transformer? (.string stored) = .string key := by
      simpa [Entries.names] using formatEntries_names hformat key
    have same (v : Value) : v ∈ (Entries.names formatted).map Value.string ↔
        v ∈ (Entries.names entries).map fun key => decodeWith keys.transformer? (.string key) := by
      constructor
      · intro hv
        obtain ⟨key, hkey, rfl⟩ := List.mem_map.mp hv
        exact List.mem_map.mpr ((names key).mp hkey)
      · intro hv
        obtain ⟨stored, hs, rfl⟩ := List.mem_map.mp hv
        obtain ⟨key, hdecoded, -⟩ := decodeWith_string affix stored
        rw [hdecoded]
        exact List.mem_map_of_mem ((names key).mpr ⟨stored, hs, hdecoded⟩)
    have length : formatted.length = entries.length ↔
        ¬ KeysCollapse keys.transformer? (Entries.names entries) := by
      rw [← nodup_decoded_iff affix hd,
        ← length_eq_iff_nodup (distinct.map fun _ _ => Value.string.inj) same]
      simp [Entries.names]
    refine ⟨formatted, rfl, distinct, names, length, fun encoded => ?_⟩
    exact length.mpr (not_keysCollapse_of_encoded affix encoded)

/-- Two keys with the same text before them. -/
theorem format_record_length_prefixed_keys :
    let keys := (Schema.scalar .string).transform (.addPrefix "user" "#")
    let schema := Schema.ofKind (.record keys (.scalar .string))
    let stored := [("user#1", Value.string "a"), ("user#2", .string "b")]
    Entries.Distinct stored ∧ ∃ formatted,
      schema.format (.map stored) = .ok (.map formatted) ∧ formatted.length = stored.length := by
  intro keys schema stored
  have affix (given : Transformer) (h : keys.transformer? = some given) : given.Affix := by
    cases h
    exact .before "user" "#"
  have distinct : Entries.Distinct stored := by decide
  have formats : formatNode schema .root (.map stored) =
      .ok (.map [("1", .string "a"), ("2", .string "b")]) := rfl
  obtain ⟨formatted, hv, -, -, -, length⟩ := format_record_length rfl affix distinct formats
  refine ⟨distinct, formatted, formats.trans (congrArg Except.ok hv), length fun key hk => ?_⟩
  rcases List.mem_cons.mp hk with rfl | hk
  · exact ⟨"1", rfl⟩
  · cases List.mem_singleton.mp hk
    exact ⟨"2", rfl⟩

/-- An entry lost: the one key has the text before it, the other one does not. -/
theorem format_record_collapsed_keys :
    let keys := (Schema.scalar .string).transform (.addPrefix "user" "#")
    let schema := Schema.ofKind (.record keys (.scalar .string))
    let stored := [("user#1", Value.string "a"), ("1", .string "b")]
    let formatted := [("1", Value.string "b")]
    Entries.Distinct stored ∧ schema.format (.map stored) = .ok (.map formatted) ∧
      formatted.length ≠ stored.length := by
  intro keys schema stored formatted
  exact ⟨by decide, rfl, by decide⟩

end ItemShape
