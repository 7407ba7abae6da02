import ItemShape.Format
import ItemShape.Proofs.Entries

/-!
# ItemShape.Proofs.Format.Children

Lists, sets and records formatted child by child, whatever formats a child. Each function goes one
child further at a time (`formatItems_cons`, `formatEntries_cons`); it succeeds where all children
are formatted (`formatItems_ok`, `formatEntries_ok`), and its results are theirs
(`formatItems_ok_forall₂`, `get?_formatEntries`). What a list, set or record formats is given by them
(`formatKind_list_eq`, `formatKind_set_eq`, `formatKind_record_eq`).
-/

namespace ItemShape

variable {path : ValuePath}

/-! ## Lists and sets -/

section Items

variable {formatItem : ValuePath → Value → Except SchemaError Value} {items values : List Value}

theorem formatItems_cons (f : ValuePath → Value → Except SchemaError Value) (path : ValuePath)
    (position : Nat) (item : Value) (rest : List Value) :
    formatItems f path position (item :: rest) =
      (f (path.index position) item).bind fun value =>
        (formatItems f path (position + 1) rest).map fun values => value :: values := by
  rw [formatItems]
  cases f (path.index position) item with
  | error e => rfl
  | ok value =>
    dsimp only [Except.bind]
    cases formatItems f path (position + 1) rest <;> rfl

theorem formatItems_cons_ok_iff {position : Nat} {item : Value} {rest : List Value} :
    formatItems formatItem path position (item :: rest) = .ok values ↔
      ∃ v vs, formatItem (path.index position) item = .ok v ∧
        formatItems formatItem path (position + 1) rest = .ok vs ∧ values = v :: vs := by
  rw [formatItems_cons]
  cases formatItem (path.index position) item with
  | error e => simp [Except.bind]
  | ok v =>
    cases formatItems formatItem path (position + 1) rest <;>
      simp [Except.bind, Except.map, eq_comm]

theorem formatItems_ok
    (h : List.Forall₂ (fun item v => ∀ place, formatItem place item = .ok v) items values)
    (position : Nat) : formatItems formatItem path position items = .ok values := by
  induction h generalizing position with
  | nil => rfl
  | cons hv _ ih => exact formatItems_cons_ok_iff.mpr ⟨_, _, hv _, ih _, rfl⟩

theorem formatItems_ok_forall₂ {position : Nat}
    (h : formatItems formatItem path position items = .ok values) :
    List.Forall₂ (fun item v => ∃ place, formatItem place item = .ok v) items values := by
  induction items generalizing position values with
  | nil =>
    cases h
    exact .nil
  | cons item rest ih =>
    obtain ⟨v, vs, hv, hvs, rfl⟩ := formatItems_cons_ok_iff.mp h
    exact .cons ⟨_, hv⟩ (ih hvs)

theorem formatItems_forall {P : Value → Prop}
    (each : ∀ place v w, formatItem place v = .ok w → P w) {position : Nat}
    (h : formatItems formatItem path position items = .ok values) : ∀ v ∈ values, P v := by
  intro v hv
  obtain ⟨item, -, place, hw⟩ := exists_of_forall₂_right (formatItems_ok_forall₂ h) v hv
  exact each place item v hw

theorem formatItems_congr {others : List Value}
    (h : List.Forall₂ (fun v w => ∀ place, formatItem place v = formatItem place w) items others)
    (position : Nat) :
    formatItems formatItem path position items = formatItems formatItem path position others := by
  induction h generalizing position with
  | nil => rfl
  | cons hv _ ih => rw [formatItems_cons, formatItems_cons, hv, ih]

/-- Members are items that do not look at their place. -/
theorem formatMembers_eq_formatItems (formatMember : Value → Except SchemaError Value)
    (path : ValuePath) (members : List Value) (position : Nat) :
    formatMembers formatMember members =
      formatItems (fun _ member => formatMember member) path position members := by
  induction members generalizing position with
  | nil => rfl
  | cons member rest ih => rw [formatMembers, formatItems, ih (position + 1)]

theorem formatMembers_ok {formatMember : Value → Except SchemaError Value} {members : List Value}
    (h : List.Forall₂ (fun member v => formatMember member = .ok v) members values) :
    formatMembers formatMember members = .ok values := by
  rw [formatMembers_eq_formatItems formatMember .root members 0]
  exact formatItems_ok (h.imp fun _ _ hv _ => hv) 0

end Items

/-! ## Records -/

section Entries

variable {keys : Option Transformer} {formatElement : ValuePath → Value → Except SchemaError Value}
  {done entries formatted : List (String × Value)}

theorem declaredKey_ok_iff {stored key : String} :
    declaredKey keys stored path = .ok key ↔ decodeWith keys (.string stored) = .string key := by
  unfold declaredKey
  cases decodeWith keys (.string stored) <;> simp

theorem formatEntries_cons (f : ValuePath → Value → Except SchemaError Value) (path : ValuePath)
    (keys : Option Transformer) (done : List (String × Value)) (entry : String × Value)
    (rest : List (String × Value)) :
    formatEntries keys f path done (entry :: rest) =
      (declaredKey keys entry.1 (path.member entry.1)).bind fun key =>
        (f (path.member key) entry.2).bind fun value =>
          formatEntries keys f path (Entries.insert key value done) rest := by
  rw [formatEntries]
  cases declaredKey keys entry.1 (path.member entry.1) with
  | error e => rfl
  | ok key =>
    dsimp only [Except.bind]
    cases f (path.member key) entry.2 <;> rfl

theorem formatEntries_cons_ok_iff {entry : String × Value} {rest : List (String × Value)} :
    formatEntries keys formatElement path done (entry :: rest) = .ok formatted ↔
      ∃ key w, decodeWith keys (.string entry.1) = .string key ∧
        formatElement (path.member key) entry.2 = .ok w ∧
          formatEntries keys formatElement path (Entries.insert key w done) rest =
            .ok formatted := by
  simp only [← @declaredKey_ok_iff (path.member entry.1)]
  rw [formatEntries_cons]
  cases declaredKey keys entry.1 (path.member entry.1) with
  | error e => simp [Except.bind]
  | ok key =>
    simp only [Except.bind, Except.ok.injEq, exists_and_left, exists_eq_left']
    cases formatElement (path.member key) entry.2 <;> simp

theorem formatEntries_ok
    (h : List.Forall₂ (fun entry other => decodeWith keys (.string entry.1) = .string other.1 ∧
      ∀ place, formatElement place entry.2 = .ok other.2) entries formatted)
    (hd : Entries.Distinct (done ++ formatted)) :
    formatEntries keys formatElement path done entries = .ok (done ++ formatted) := by
  induction h generalizing done with
  | nil => rw [formatEntries, List.append_nil]
  | @cons entry other entries formatted hv _ ih =>
    have hn : other.1 ∉ Entries.names done := by
      intro hm
      rw [Entries.Distinct, Entries.names_append, List.nodup_append] at hd
      exact hd.2.2 _ hm _ List.mem_cons_self rfl
    have happend : done ++ other :: formatted = done ++ [(other.1, other.2)] ++ formatted := by simp
    refine formatEntries_cons_ok_iff.mpr ⟨other.1, other.2, hv.1, hv.2 _, ?_⟩
    rw [happend] at hd ⊢
    rw [Entries.insert_of_not_mem hn]
    exact ih hd

/-- What holds of the values that came before and of all formatted ones holds of all values. -/
theorem formatEntries_forall {P : Value → Prop}
    (each : ∀ place v w, formatElement place v = .ok w → P w) (hd : ∀ entry ∈ done, P entry.2)
    (h : formatEntries keys formatElement path done entries = .ok formatted) :
    ∀ entry ∈ formatted, P entry.2 := by
  induction entries generalizing done with
  | nil =>
    cases h
    exact hd
  | cons entry rest ih =>
    obtain ⟨key, w, -, hw, h⟩ := formatEntries_cons_ok_iff.mp h
    refine ih (fun entry he => ?_) h
    rcases Entries.mem_insert he with rfl | he
    · exact each _ _ _ hw
    · exact hd entry he

theorem formatEntries_congr {others : List (String × Value)}
    (h : Entries.Rel (fun v w => ∀ place, formatElement place v = formatElement place w) entries
      others) (done : List (String × Value)) :
    formatEntries keys formatElement path done entries =
      formatEntries keys formatElement path done others := by
  induction h generalizing done with
  | nil => rfl
  | cons hv _ ih => simp only [formatEntries_cons, hv.1, hv.2, ih]

/-- The keys are those that came before and the decoded ones. -/
theorem formatEntries_names
    (h : formatEntries keys formatElement path done entries = .ok formatted) (key : String) :
    key ∈ Entries.names formatted ↔ key ∈ Entries.names done ∨
      ∃ stored ∈ Entries.names entries, decodeWith keys (.string stored) = .string key := by
  induction entries generalizing done with
  | nil =>
    cases h
    simp [Entries.names]
  | cons entry rest ih =>
    obtain ⟨decoded, w, hk, -, h⟩ := formatEntries_cons_ok_iff.mp h
    rw [ih h, Entries.mem_names_insert, Entries.names_cons, List.exists_mem_cons_iff, hk]
    simp only [Value.string.injEq, eq_comm, or_assoc, or_left_comm]

theorem formatEntries_distinct
    (h : formatEntries keys formatElement path done entries = .ok formatted)
    (hd : Entries.Distinct done) : Entries.Distinct formatted := by
  induction entries generalizing done with
  | nil =>
    cases h
    exact hd
  | cons entry rest ih =>
    obtain ⟨_, _, -, -, h⟩ := formatEntries_cons_ok_iff.mp h
    exact ih h (Entries.distinct_insert hd)

theorem get?_formatEntries_of_ne
    (h : formatEntries keys formatElement path done entries = .ok formatted) {key : String}
    (other : ∀ stored ∈ Entries.names entries, decodeWith keys (.string stored) ≠ .string key) :
    Entries.get? key formatted = Entries.get? key done := by
  induction entries generalizing done with
  | nil =>
    cases h
    rfl
  | cons entry rest ih =>
    rw [Entries.names_cons, List.forall_mem_cons] at other
    obtain ⟨decoded, w, hk, -, h⟩ := formatEntries_cons_ok_iff.mp h
    have hne : decoded ≠ key := by
      rintro rfl
      exact other.1 hk
    rw [ih h other.2, Entries.get?_insert_ne hne]

/-- Under a key that only one stored key is decoded to stands the element from there. -/
theorem get?_formatEntries (hd : Entries.Distinct entries)
    (h : formatEntries keys formatElement path done entries = .ok formatted)
    {stored key : String} {t : Value} (hm : (stored, t) ∈ entries)
    (hk : decodeWith keys (.string stored) = .string key)
    (only : ∀ other ∈ Entries.names entries, decodeWith keys (.string other) = .string key →
      other = stored) :
    ∃ place w, formatElement place t = .ok w ∧ Entries.get? key formatted = some w := by
  induction entries generalizing done with
  | nil => cases hm
  | cons entry rest ih =>
    obtain ⟨hfresh, hd⟩ := Entries.distinct_cons.mp hd
    rw [Entries.names_cons, List.forall_mem_cons] at only
    obtain ⟨decoded, w, hdecoded, hw, h⟩ := formatEntries_cons_ok_iff.mp h
    rcases List.mem_cons.mp hm with rfl | hm
    · rw [hk] at hdecoded
      cases hdecoded
      have other : ∀ other ∈ Entries.names rest, decodeWith keys (.string other) ≠ .string key :=
        fun other ho hdecoded => hfresh (only.2 other ho hdecoded ▸ ho)
      exact ⟨_, w, hw, (get?_formatEntries_of_ne h other).trans Entries.get?_insert_self⟩
    · exact ih hd h hm only.2

end Entries

/-! ## Kinds with children of one schema -/

section Kinds

variable {transformer : Option Transformer}

theorem formatKind_list_eq (elements : Schema) (items : List Value) :
    formatKind (.list elements) transformer path (.list items) =
      (formatItems (fun place item => formatNode elements place item) path 0 items).map .list := by
  rw [formatKind]
  cases formatItems (fun place item => formatNode elements place item) path 0 items <;> rfl

theorem formatKind_set_eq (elements : Schema) (members : List Value) :
    formatKind (.set elements) transformer path (.list members) =
      (formatItems (fun _ member => formatNode elements path member) path 0 members).map .list := by
  rw [formatKind, formatMembers_eq_formatItems _ path _ 0]
  cases formatItems (fun _ member => formatNode elements path member) path 0 members <;> rfl

theorem formatKind_record_eq (keys elements : Schema) (entries : List (String × Value)) :
    formatKind (.record keys elements) transformer path (.map entries) =
      (formatEntries keys.transformer? (fun place item => formatNode elements place item) path []
        entries).map .map := by
  rw [formatKind]
  cases formatEntries keys.transformer? (fun place item => formatNode elements place item) path []
    entries <;> rfl

end Kinds

end ItemShape
