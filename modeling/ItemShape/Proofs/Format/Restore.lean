import ItemShape.Proofs.Format.Children
import ItemShape.Proofs.Format.Shown
import ItemShape.Proofs.Lists
import ItemShape.Proofs.Parse.Filled
import ItemShape.Proofs.Parse.Present
import ItemShape.Proofs.Parse.Steps
import ItemShape.Proofs.Schema.Transformer

/-!
# ItemShape.Proofs.Format.Restore

Formatting undoes storing: from the stored value it makes the filled one, less what is hidden
(`format_stored`).

The filled tree stands between the two. `Filled.RestoredBy` says of a tree and a schema that
formatting what the tree stores gives what the tree has filled; `fillNode_restored` that every
tree filled from a reversible schema is such a tree.
-/

namespace ItemShape

/-- What a node must be for its stored values to be told apart. -/
def Schema.NodeReversible (schema : Schema) : Prop :=
  match schema.kind with
  | .scalar _ => ∀ transformer, schema.transformer? = some transformer → transformer.Faithful
  | .map attributes | .item attributes =>
    (attributes.map fun entry => entry.2.storedName entry.1).Nodup
  | .anyOf members =>
    (∀ member ∈ members, member.kind.typeName? ≠ none) ∧
      (members.map fun member => member.kind.typeName?).Nodup
  | _ => True

/-- Transformers can be undone, no two attributes of a map are stored under one name, and the
members of a union are told apart by the type of a value. -/
def Schema.Reversible (schema : Schema) : Prop :=
  schema.Everywhere NodeReversible

/-! ## Unions -/

theorem formatFirst_eq_some {path : ValuePath} {members : List Schema} {member : Schema}
    {t v : Value} (hm : member ∈ members) (hv : formatNode member path t = .ok v)
    (only : ∀ other ∈ members, ∀ w, formatNode other path t = .ok w → other = member) :
    formatFirst members path t = some v := by
  induction members with
  | nil => cases hm
  | cons first rest ih =>
    rw [List.forall_mem_cons] at only
    rw [formatFirst]
    cases hf : formatNode first path t with
    | ok w =>
      cases only.1 w hf
      rw [hv] at hf
      cases hf
      rfl
    | error e =>
      rcases List.mem_cons.mp hm with rfl | hm
      · rw [hv] at hf
        cases hf
      · exact ih hm only.2

/-! ## Types -/

section Transformers

variable {transformer : Option Transformer}
  (faithful : ∀ given, transformer = some given → given.Faithful) (v : Value)

include faithful

theorem decodeWith_encodeWith : decodeWith transformer (Filled.encodeWith transformer v) = v := by
  cases transformer with
  | none => rfl
  | some given => exact (faithful given rfl).decodes v

theorem typeName_encodeWith : (Filled.encodeWith transformer v).typeName = v.typeName := by
  cases transformer with
  | none => rfl
  | some given => exact (faithful given rfl).encodedType v

theorem typeName_decodeWith : (decodeWith transformer v).typeName = v.typeName := by
  cases transformer with
  | none => rfl
  | some given => exact (faithful given rfl).decodedType v

end Transformers

theorem typeName_of_scalarMatches {kind : ScalarKind} {v : Value} {type : String}
    (h : scalarMatches kind v = true) (ht : (Kind.scalar kind).typeName? = some type) :
    v.typeName = type := by
  cases kind <;> cases v <;>
    simp_all [scalarMatches, Kind.typeName?, Value.typeName, ScalarKind.name]

/-- A schema formats values of its type only. -/
theorem typeName_of_formatNode {schema : Schema} (hr : schema.Reversible) {type : String}
    (ht : schema.kind.typeName? = some type) {path : ValuePath} {t v : Value}
    (h : formatNode schema path t = .ok v) : t.typeName = type := by
  have reversible := hr.root
  obtain ⟨props, kind⟩ := schema
  rw [formatNode] at h
  cases kind with
  | scalar kind =>
    simp only [formatKind] at h
    split at h
    · rename_i hm
      rw [← typeName_of_scalarMatches hm ht]
      exact (typeName_decodeWith reversible t).symm
    · cases h
  | anyOf members => cases ht
  | _ =>
    cases ht
    cases t <;> simp only [formatKind, reduceCtorEq] at h
    rfl

/-! ## Filled trees -/

/-- Formatting `t` gives what is shown of `f`, and the two have the type of the schema. -/
structure Schema.Restores (schema : Schema) (f t : Value) : Prop where
  formats : ∀ place, formatNode schema place t = .ok (schema.shownPart f)
  types : ∀ type, schema.kind.typeName? = some type → f.typeName = type ∧ t.typeName = type

/-- The tree has a filled value, and what it stores is restored to it. -/
def Filled.RestoredBy (schema : Schema) (filled : Filled) : Prop :=
  ∃ f, filled.value? = some f ∧ ∀ path stored, filled.store path = .ok stored →
    ∃ t, stored = some t ∧ schema.Restores f t

namespace Filled.RestoredBy

variable {schema : Schema}

theorem stores {filled : Filled} (h : filled.RestoredBy schema) : filled.Stores := by
  intro path t ht
  obtain ⟨f, _, hs⟩ := h
  obtain ⟨v, rfl, _⟩ := hs path t ht
  exact Option.some_ne_none v

theorem items {fs : List Filled} {values : List Value} (h : ∀ f ∈ fs, f.RestoredBy schema)
    (hs : List.Forall₂ (fun f t => ∃ path, f.store path = .ok (some t)) fs values) :
    List.Forall₂ (fun t v => ∀ place, formatNode schema place t = .ok v) values
      ((itemValues fs).map fun f => schema.shownPart f) := by
  induction hs with
  | nil => exact .nil
  | cons hs _ ih =>
    rw [List.forall_mem_cons] at h
    obtain ⟨⟨f, hf, hr⟩, h⟩ := h
    obtain ⟨path, hs⟩ := hs
    obtain ⟨t, ht, hr⟩ := hr path _ hs
    cases ht
    simp only [itemValues, hf, List.map_cons]
    exact .cons hr.formats (ih h)

theorem entries {keys : Option Transformer}
    (faithful : ∀ given, keys = some given → given.Faithful) {fs : List (String × Filled)}
    {stored : List (String × Value)} (h : ∀ f ∈ fs, RestoredBy schema f.2)
    (hs : List.Forall₂ (fun f entry => encodeWith keys (.string f.1) = .string entry.1 ∧
      ∃ path, f.2.store path = .ok (some entry.2)) fs stored) :
    List.Forall₂ (fun entry other => encodeWith keys (.string other.1) = .string entry.1 ∧
        decodeWith keys (.string entry.1) = .string other.1 ∧
        ∀ place, formatNode schema place entry.2 = .ok other.2) stored
      ((entryValues fs).map fun entry => (entry.1, schema.shownPart entry.2)) := by
  induction hs with
  | nil => exact .nil
  | @cons f entry _ _ hs _ ih =>
    rw [List.forall_mem_cons] at h
    obtain ⟨key, content⟩ := f
    obtain ⟨⟨v, hv, hr⟩, h⟩ := h
    obtain ⟨hkey, path, hs⟩ := hs
    obtain ⟨t, ht, hr⟩ := hr path _ hs
    cases ht
    have hdecode : decodeWith keys (.string entry.1) = .string key := by
      rw [← hkey]
      exact decodeWith_encodeWith faithful _
    simp only [entryValues, hv, List.map_cons]
    exact .cons ⟨hkey, hdecode, hr.formats⟩ (ih h)

end Filled.RestoredBy

/-- Distinct stored keys come from distinct keys. -/
theorem distinct_of_storedKeys {α : Type} {keys : Option Transformer}
    {entries : List (String × Value)} {others : List (String × α)} (hd : Entries.Distinct entries)
    (h : List.Forall₂ (fun entry other =>
      Filled.encodeWith keys (.string other.1) = .string entry.1) entries others) :
    Entries.Distinct others := by
  have hnames : (Entries.names others).map (fun key => Filled.encodeWith keys (.string key)) =
      (Entries.names entries).map Value.string := by
    induction h with
    | nil => rfl
    | cons hk _ ih =>
      rw [Entries.distinct_cons] at hd
      simp only [Entries.names_cons, List.map_cons, hk, ih hd.2]
  have hstored : ((Entries.names entries).map Value.string).Nodup :=
    List.Nodup.map (fun _ _ h => Value.string.inj h) hd
  rw [← hnames] at hstored
  exact hstored.of_map

/-! ## Maps and items -/

/-- What the slot of an attribute holds, seen from the stored entries. -/
structure SlotRestored (stored : List (String × Value)) (entry : String × Schema)
    (slot : Slot Filled) : Prop where
  name : slot.name = entry.1
  held : Option.Rel entry.2.Restores slot.content.value?
    (Entries.get? (entry.2.storedName entry.1) stored)

/-- The attributes are read back in declaration order, those without a slot being absent. -/
theorem formatAttributes_ok {attributes : List (String × Schema)} (hd : Entries.Distinct attributes)
    {parsed : String × Schema → Bool} {stored : List (String × Value)} {place : ValuePath}
    {declared : List (String × Schema)} (hsub : declared ⊆ attributes)
    (skipped : ∀ entry ∈ declared, parsed entry = false →
      Entries.get? (entry.2.storedName entry.1) stored = none)
    {slots : List (Slot Filled)}
    (hs : List.Forall₂ (SlotRestored stored) (declared.filter parsed) slots) :
    formatAttributes declared place stored = .ok ((Filled.slotValues slots).filterMap fun entry =>
      (shownAttribute attributes entry.1 entry.2).map fun v => (entry.1, v)) := by
  induction declared generalizing slots with
  | nil =>
    cases hs
    rw [formatAttributes]
    rfl
  | cons entry rest ih =>
    obtain ⟨name, schema⟩ := entry
    rw [List.forall_mem_cons] at skipped
    obtain ⟨hm, hsub⟩ := List.cons_subset.mp hsub
    have hidden : schema.isHidden = true →
        formatAttributes ((name, schema) :: rest) place stored =
          formatAttributes rest place stored := by
      intro hh
      rw [formatAttributes, if_pos hh]
    have absent : Entries.get? (schema.storedName name) stored = none →
        formatAttributes ((name, schema) :: rest) place stored =
          formatAttributes rest place stored := by
      intro hn
      rw [formatAttributes, hn]
      exact ite_self _
    cases hp : parsed (name, schema) with
    | false =>
      rw [List.filter_cons_of_neg (by simp [hp])] at hs
      rw [absent (skipped.1 hp)]
      exact ih hsub skipped.2 hs
    | true =>
      rw [List.filter_cons_of_pos hp] at hs
      cases hs with
      | @cons _ slot _ slots hslot hs =>
        have ih := ih hsub skipped.2 hs
        have held := hslot.held
        dsimp only at held
        generalize hv : slot.content.value? = value at held
        generalize ht : Entries.get? (schema.storedName name) stored = kept at held
        simp only [Filled.slotValues, hv]
        cases held with
        | none =>
          rw [absent ht]
          exact ih
        | some hr =>
          rename_i f t
          simp only [List.filterMap_cons, hslot.name, shownAttribute_of_mem hd hm]
          cases hh : schema.isHidden with
          | true =>
            rw [hidden hh]
            exact ih
          | false =>
            rw [formatAttributes, hh, ht]
            simp only [hr.formats, ih]
            rfl

section Named

variable {props : Props} {kind : Kind Schema} {attributes : List (String × Schema)}

theorem formatKind_attributes_eq (hk : kind.attributes? = some attributes)
    (transformer : Option Transformer) (place : ValuePath) (stored : List (String × Value)) :
    formatKind kind transformer place (.map stored) =
      (formatAttributes attributes place stored).map .map := by
  cases kind with
  | map _ => cases hk; rw [formatKind]; cases formatAttributes attributes place stored <;> rfl
  | item _ => cases hk; rw [formatKind]; cases formatAttributes attributes place stored <;> rfl
  | _ => cases hk

theorem formatNode_attributes_ok_iff (hk : kind.attributes? = some attributes) {place : ValuePath}
    {stored : List (String × Value)} {v : Value} :
    formatNode (.mk props kind) place (.map stored) = .ok v ↔
      ∃ formatted, formatAttributes attributes place stored = .ok formatted ∧ .map formatted = v := by
  rw [formatNode, formatKind_attributes_eq hk]
  cases formatAttributes attributes place stored <;> simp [Except.map]

theorem shownPart_attributes (hk : kind.attributes? = some attributes)
    (entries : List (String × Value)) : (Schema.mk props kind).shownPart (.map entries) =
      .map (entries.filterMap fun entry =>
        (shownAttribute attributes entry.1 entry.2).map fun v => (entry.1, v)) := by
  rw [Schema.shownPart]
  cases kind with
  | map _ => cases hk; rw [Kind.shownPart]
  | item _ => cases hk; rw [Kind.shownPart]
  | _ => cases hk

theorem typeName?_attributes (hk : kind.attributes? = some attributes) :
    kind.typeName? = some "map" := by
  cases kind with
  | map _ => rfl
  | item _ => rfl
  | _ => cases hk

/-- No attribute that is absent from the entries has the stored name of one that is there. -/
def NamesApart (attributes : List (String × Schema)) (entries : List (String × Value)) : Prop :=
  ∀ absent ∈ attributes, absent.1 ∉ Entries.names entries →
    ∀ present ∈ attributes, present.1 ∈ Entries.names entries →
      absent.2.storedName absent.1 ≠ present.2.storedName present.1

theorem namesApart_of_nodup
    (hstored : (attributes.map fun entry => entry.2.storedName entry.1).Nodup)
    (entries : List (String × Value)) : NamesApart attributes entries := by
  intro absent ha habsent present hp hpresent heq
  cases List.inj_on_of_nodup_map hstored ha hp heq
  exact habsent hpresent

section Slots

variable {mode : Mode} {slots : List (Slot Filled)} (hd : Entries.Distinct attributes)
  (hs : List.Forall₂ (SlotWith Filled.RestoredBy) (kind.parsed mode attributes) slots)
  (apart : NamesApart attributes (Filled.slotValues slots))

include hd hs apart

/-- Nothing stands under the stored name of an attribute without a value. -/
theorem get?_stored_of_absent {path : ValuePath} {stored : List (String × Value)}
    (he : Filled.storeSlots path [] slots = .ok stored) {entry : String × Schema}
    (hm : entry ∈ attributes)
    (habsent : entry.1 ∉ Entries.names (Filled.slotValues slots)) :
    Entries.get? (entry.2.storedName entry.1) stored = none := by
  refine Entries.get?_eq_none_iff.mpr fun hn => ?_
  obtain ⟨-, slot, hslot, hname, place, t, ht⟩ := Filled.exists_slot_of_mem_names_stored he hn
  obtain ⟨other, ho, hother⟩ := exists_of_forall₂_right hs slot hslot
  have hvalue : other.1 ∈ Entries.names (Filled.slotValues slots) := by
    refine Entries.exists_get?_iff.mp ?_
    rw [get?_slotValues_of_slotWith hd hs hslot hother]
    rcases hother.content with ha | ⟨present, -⟩
    · rw [ha] at ht
      cases ht
    · exact present.exists_value
  have ho := (Kind.parsed_sublist kind mode attributes).subset ho
  exact apart entry hm habsent other ho hvalue (hname.symm.trans hother.stored)

/-- A map is restored if its stored names lead back to the slots with a value, and only to them. -/
theorem restoredBy_attributes (hk : kind.attributes? = some attributes) :
    (Filled.map slots).RestoredBy (.mk props kind) := by
  refine ⟨_, rfl, fun path stored h => ?_⟩
  simp only [Filled.store] at h
  split at h
  · cases h
  · rename_i entries he
    cases h
    have absent {entry : String × Schema} (hentry : entry ∈ attributes) :=
      get?_stored_of_absent hd hs apart he hentry
    have hsub : kind.parsed mode attributes ⊆ attributes :=
      (Kind.parsed_sublist kind mode attributes).subset
    have restored : List.Forall₂ (SlotRestored entries) (kind.parsed mode attributes) slots := by
      refine forall₂_imp (fun entry hentry slot hm hslot => ⟨hslot.name, ?_⟩) hs
      have hget := get?_slotValues_of_slotWith hd hs hm hslot
      rcases hslot.content with ha | ⟨present, f, hv, hr⟩
      · have hvalue : slot.content.value? = none := by rw [ha, Filled.value?]
        rw [hvalue] at hget ⊢
        rw [absent (hsub hentry) (Entries.get?_eq_none_iff.mp hget)]
        exact .none
      · obtain ⟨place, t, ht, hheld⟩ := Filled.get?_storeSlots he hm present.stores
        obtain ⟨u, hu, hr⟩ := hr _ _ ht
        cases hu
        rw [hslot.stored] at hheld
        rw [hv, hheld]
        exact .some hr
    have skipped : ∀ entry ∈ attributes,
        (!kind.keyOnly mode || entry.2.isKey) = false →
          Entries.get? (entry.2.storedName entry.1) entries = none := by
      intro entry hentry hp
      refine absent hentry fun hn => ?_
      obtain ⟨v, hv⟩ := Entries.exists_get?_iff.mpr hn
      obtain ⟨hparsed, -⟩ := exists_slot_of_value hd hs hentry hv
      have hkept := (List.mem_filter.mp hparsed).2
      rw [hp] at hkept
      cases hkept
    refine ⟨_, rfl, fun place => ?_, fun type ht => ?_⟩
    · rw [shownPart_attributes hk]
      refine (formatNode_attributes_ok_iff hk).mpr ⟨_, ?_, rfl⟩
      exact formatAttributes_ok hd (List.Subset.refl _) skipped restored
    · rw [Schema.kind, typeName?_attributes hk] at ht
      cases ht
      exact ⟨rfl, rfl⟩

end Slots

end Named

/-! ## The other kinds -/

section Kinds

variable {props : Props}

theorem restoredBy_scalar {kind : ScalarKind}
    (faithful : ∀ given, props.transformer = some given → given.Faithful) {v : Value}
    (hm : scalarMatches kind v = true) :
    (Filled.scalar props.transformer v).RestoredBy (.mk props (.scalar kind)) := by
  refine ⟨v, rfl, fun path stored hs => ?_⟩
  cases hs
  refine ⟨_, rfl, fun place => ?_, fun type ht => ?_⟩
  · rw [formatNode, formatKind, decodeWith_encodeWith faithful, if_pos hm]
    rfl
  · rw [typeName_encodeWith faithful]
    exact ⟨typeName_of_scalarMatches hm ht, typeName_of_scalarMatches hm ht⟩

theorem restoredBy_set {elements : Schema} {fs : List Filled}
    (restored : ∀ f ∈ fs, f.RestoredBy elements) :
    (Filled.set fs).RestoredBy (.mk props (.set elements)) := by
  refine ⟨_, rfl, fun path stored hs => ?_⟩
  simp only [Filled.store] at hs
  split at hs
  · cases hs
  · rename_i values hv
    cases hs
    have stored := Filled.storeMembers_ok (fun f hf => (restored f hf).stores) hv
    have formatted := Filled.RestoredBy.items restored stored
    refine ⟨_, rfl, fun place => ?_, fun type ht => ?_⟩
    · have hformat := formatMembers_ok (formatted.imp fun _ _ h => h place)
      simp only [formatNode, formatKind, hformat]
      rfl
    · cases ht
      exact ⟨rfl, rfl⟩

theorem restoredBy_list {elements : Schema} {fs : List Filled}
    (restored : ∀ f ∈ fs, f.RestoredBy elements) :
    (Filled.list fs).RestoredBy (.mk props (.list elements)) := by
  refine ⟨_, rfl, fun path stored hs => ?_⟩
  simp only [Filled.store] at hs
  split at hs
  · cases hs
  · rename_i values hv
    cases hs
    have stored := Filled.storeItems_ok (fun f hf => (restored f hf).stores) hv
    have formatted := Filled.RestoredBy.items restored stored
    refine ⟨_, rfl, fun place => ?_, fun type ht => ?_⟩
    · have hformat : formatItems (fun place item => formatNode elements place item) place 0 values =
          .ok _ := formatItems_ok formatted 0
      simp only [formatNode, formatKind, hformat]
      rfl
    · cases ht
      exact ⟨rfl, rfl⟩

theorem restoredBy_record {keys elements : Schema}
    (faithful : ∀ given, keys.transformer? = some given → given.Faithful)
    {fs : List (String × Filled)} (restored : ∀ f ∈ fs, Filled.RestoredBy elements f.2) :
    (Filled.record keys.transformer? fs).RestoredBy (.mk props (.record keys elements)) := by
  refine ⟨_, rfl, fun path stored hs => ?_⟩
  simp only [Filled.store] at hs
  split at hs
  · cases hs
  · rename_i entries he
    cases hs
    obtain ⟨stored, hd, _⟩ := Filled.storeEntries_ok (fun f hf => (restored f hf).stores) he
    have formatted := Filled.RestoredBy.entries faithful restored stored
    have hd' := distinct_of_storedKeys hd (formatted.imp fun _ _ h => h.1)
    refine ⟨_, rfl, fun place => ?_, fun type ht => ?_⟩
    · have hformat : formatEntries keys.transformer?
          (fun place item => formatNode elements place item) place [] entries = .ok _ :=
        formatEntries_ok (formatted.imp fun _ _ h => h.2) hd'
      simp only [formatNode, formatKind, hformat]
      rfl
    · cases ht
      exact ⟨rfl, rfl⟩

/-- A member that reads the stored value has its type, and only one member has. -/
theorem restoredBy_anyOf {members : List Schema}
    (reversible : ∀ member ∈ members, member.Reversible)
    (typed : ∀ member ∈ members, member.kind.typeName? ≠ none)
    (disjoint : (members.map fun member => member.kind.typeName?).Nodup) {member : Schema}
    (hm : member ∈ members) {filled : Filled} (restored : filled.RestoredBy member) :
    filled.RestoredBy (.mk props (.anyOf members)) := by
  obtain ⟨f, hv, hs⟩ := restored
  refine ⟨f, hv, fun path stored ht => ?_⟩
  obtain ⟨t, rfl, restores⟩ := hs path stored ht
  obtain ⟨type, htype⟩ := Option.ne_none_iff_exists'.mp (typed member hm)
  obtain ⟨hfilled, hstored⟩ := restores.types type htype
  refine ⟨t, rfl, fun place => ?_, fun type ht => by cases ht⟩
  have only : ∀ other ∈ members, ∀ w, formatNode other place t = .ok w → other = member := by
    intro other ho w hw
    obtain ⟨type', htype'⟩ := Option.ne_none_iff_exists'.mp (typed other ho)
    have hread := typeName_of_formatNode (reversible other ho) htype' hw
    refine List.inj_on_of_nodup_map disjoint ho hm ?_
    rw [htype, htype', ← hread, hstored]
  have hformat := formatFirst_eq_some hm (restores.formats place) only
  simp only [formatNode, formatKind, hformat]
  rw [Schema.shownPart, Kind.shownPart, shownMember_of_mem disjoint hm (by rw [htype, hfilled])]

end Kinds

/-! ## Whole parses -/

theorem restored_rules (settings : Settings) : FillRules settings fun schema filled =>
    schema.WellFormed → schema.Reversible → filled.RestoredBy schema where
  scalar hm wf hr := restoredBy_scalar hr.root hm
  set each wf hr := by
    refine restoredBy_set fun f hf => ?_
    exact (each f hf).2 (wf.child List.mem_cons_self) (hr.child List.mem_cons_self)
  list each wf hr := by
    refine restoredBy_list fun f hf => ?_
    exact (each f hf).2 (wf.child List.mem_cons_self) (hr.child List.mem_cons_self)
  record {props keys elements fs} each wf hr := by
    obtain ⟨_, _, hkeys⟩ : keys.IsElement ∧ elements.IsElement ∧
      keys.kind = .scalar .string := wf.root
    have faithful : ∀ given, keys.transformer? = some given → given.Faithful := by
      have hk := (hr.child List.mem_cons_self).root
      rwa [Schema.NodeReversible, hkeys] at hk
    have hm : elements ∈ Kind.children (.record keys elements) := by simp [Kind.children]
    exact restoredBy_record faithful fun f hf => (each f hf).2 (wf.child hm) (hr.child hm)
  anyOf {props earlier later member path scope v filled} _ _ restored wf hr := by
    have hm : member ∈ earlier ++ member :: later := by simp
    have reversible : (∀ other ∈ earlier ++ member :: later, other.kind.typeName? ≠ none) ∧
      ((earlier ++ member :: later).map fun other => other.kind.typeName?).Nodup := hr.root
    exact restoredBy_anyOf (fun other ho => hr.child ho) reversible.1 reversible.2 hm
      (restored (wf.child hm) (hr.child hm))
  attributes {props kind attributes slots} hk each wf hr := by
    have hd : Entries.Distinct attributes := wf.distinct hk
    have hstored : (attributes.map fun entry => entry.2.storedName entry.1).Nodup := by
      have reversible := hr.root
      cases kind with
      | map _ => cases hk; exact reversible
      | item _ => cases hk; exact reversible
      | _ => cases hk
    have restored : List.Forall₂ (SlotWith Filled.RestoredBy) (kind.parsed settings.mode attributes)
        slots := by
      refine forall₂_imp (fun entry he slot _ hslot => ⟨hslot.name, hslot.stored, ?_⟩) each
      have hm := Kind.mem_children hk ((Kind.parsed_sublist kind settings.mode attributes).subset he)
      exact hslot.content.imp_right fun h => ⟨h.1, h.2 (wf.child hm) (hr.child hm)⟩
    exact restoredBy_attributes hd restored (namesApart_of_nodup hstored _) hk

/-- Every tree filled from the schema is restored, unless there was nothing to fill. -/
theorem fillNode_restored {schema : Schema} (wf : schema.WellFormed) (hr : schema.Reversible)
    (settings : Settings) (path : ValuePath) (scope : Option LinkContext) (input : Option Value)
    (filled : Filled) (h : fillNode schema none (settings.at path) scope input = .ok filled) :
    filled.RestoredBy schema ∨ input = none ∧ filled = .absent :=
  ((restored_rules settings).fillNode h).imp_left fun restored => restored.2 wf hr

/-- Formatting what the second step stores gives what the first one has filled, without the hidden
attributes. Prefixes and suffixes are among the transformers this holds for. -/
theorem format_stored {schema : Schema} {options : ParseOptions} {input : Option Value}
    {f t : Value} (hb : schema.Built) (hr : schema.Reversible) (hx : options.extension = none)
    (h : schema.StoresTo options input (some f) (some t)) :
    schema.format t = .ok (schema.shownPart f) ∧
      ∀ text delimiter, (Transformer.addPrefix text delimiter).Faithful ∧
        (Transformer.addSuffix text delimiter).Faithful := by
  refine ⟨?_, fun text delimiter =>
    ⟨Transformer.faithful_addPrefix _ _, Transformer.faithful_addSuffix _ _⟩⟩
  obtain ⟨filled, hf, hv, hs⟩ := Schema.exists_filled_of_storesTo h
  rw [hx] at hf
  rcases fillNode_restored hb.wellFormed hr _ options.path _ _ _ hf with
    ⟨g, hg, restored⟩ | ⟨_, rfl⟩
  · obtain ⟨u, hu, restores⟩ := restored _ _ hs
    rw [hv] at hg
    cases hg
    cases hu
    exact restores.formats .root
  · cases hv

/-- A renamed and prefixed attribute beside a hidden one. -/
theorem format_stored_hidden_attribute :
    let id := ((Schema.scalar .string).savedAs "pk").transform (.addPrefix "user" "#")
    let schema := Schema.ofKind (.map [("id", id), ("secret", (Schema.scalar .string).hide)])
    let filled := Value.map [("id", .string "u"), ("secret", .string "s")]
    let stored := Value.map [("pk", .string ("user" ++ "#" ++ "u")), ("secret", .string "s")]
    schema.format stored = .ok (schema.shownPart filled) ∧
      ∀ text delimiter, (Transformer.addPrefix text delimiter).Faithful ∧
        (Transformer.addSuffix text delimiter).Faithful := by
  intro id schema filled stored
  have built : schema.Built := by
    refine .map (fun entry he => ?_)
      (rfl : Schema.map? [("id", id), ("secret", (Schema.scalar .string).hide)] = _)
    rcases List.mem_cons.mp he with rfl | he
    · exact .withProps
        (.withProps (.scalar .string) fun props => { props with savedAs := some "pk" })
        fun props => { props with transformer := some (.addPrefix "user" "#") }
    · cases List.mem_singleton.mp he
      exact .withProps (.scalar .string) fun props => { props with hidden := true }
  have reversible : schema.Reversible := by
    refine Schema.everywhere_iff.mpr ⟨?_, fun child hc => ?_⟩
    · have distinct : ["pk", "secret"].Nodup := by decide
      exact distinct
    · rcases List.mem_cons.mp hc with rfl | hc
      · refine Schema.everywhere_iff.mpr ⟨?_, fun child hc => by cases hc⟩
        intro transformer ht
        cases ht
        exact Transformer.faithful_addPrefix "user" "#"
      · cases List.mem_singleton.mp hc
        refine Schema.everywhere_iff.mpr ⟨?_, fun child hc => by cases hc⟩
        intro transformer ht
        cases ht
  have steps : schema.StoresTo (.ofMode .put) (some filled) (some filled) (some stored) :=
    ⟨_, _, rfl, rfl⟩
  exact format_stored built reversible rfl steps

end ItemShape
