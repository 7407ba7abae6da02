import ItemShape.Proofs.Format.Level
import ItemShape.Proofs.Format.Record
import ItemShape.Proofs.Format.Unseen

/-!
# ItemShape.Proofs.Format.Reported

Attributes that formatting reports of a stored value. The second step of a parse refuses two
attributes of one stored name where both are present; formatting looks for the stored name of every
declared attribute. An absent attribute that shares its stored name with a present one is therefore
reported with the value of the other one, or refused if that is of another type.

`format_reports_iff` says that nothing else is reported, for schemas without unions and hidden
attributes: formatting invents no attribute exactly if absent attributes share no stored name with
present ones, at every place, and then it gives back what was filled.
-/

namespace ItemShape

/-- No union, no hidden attribute, and no transformer but prefixes and suffixes. -/
structure Schema.NodePlain (schema : Schema) : Prop where
  notUnion : ∀ members, schema.kind ≠ .anyOf members
  shown : ∀ attributes, schema.kind.attributes? = some attributes →
    ∀ entry ∈ attributes, entry.2.isHidden = false
  affix : ∀ given, schema.transformer? = some given → given.Affix

def Schema.Plain (schema : Schema) : Prop :=
  schema.Everywhere NodePlain

/-- The second value has no attribute, at any place, that the first one lacks there. -/
def Schema.InventsNothing (schema : Schema) (f r : Value) : Prop :=
  schema.AtEveryLevel (fun _ entries reported => Entries.names reported ⊆ Entries.names entries) f r

/-- At no place an attribute that is absent has the stored name of one that is present. -/
def Schema.StoredApart (schema : Schema) (f : Value) : Prop :=
  schema.AtEveryLevel (fun attributes entries _ => NamesApart attributes entries) f f

namespace Schema

theorem Plain.shownPart_eq {schema : Schema} (h : schema.Plain) (v : Value) :
    schema.shownPart v = v :=
  shownPart_eq_self (fun node hn => (h node hn).shown) v

theorem inventsNothing_refl (schema : Schema) (f : Value) : schema.InventsNothing f f := by
  intro attributes entries others h
  rw [h.entries_eq rfl]
  exact List.Subset.refl _

section StoredApart

variable {props : Props}

theorem storedApart_list_iff {elements : Schema} {items : List Value} :
    (Schema.mk props (.list elements)).StoredApart (.list items) ↔
      ∀ v ∈ items, elements.StoredApart v := by
  rw [StoredApart, atEveryLevel_list_iff]
  constructor
  · intro h v hv
    obtain ⟨position, hp⟩ := List.mem_iff_getElem?.mp hv
    exact h position v v hp hp
  · intro h position v w hv hw
    cases hv.symm.trans hw
    exact h v (List.mem_of_getElem? hv)

theorem storedApart_record_iff {keys elements : Schema} {entries : List (String × Value)} :
    (Schema.mk props (.record keys elements)).StoredApart (.map entries) ↔
      ∀ key v, Entries.get? key entries = some v → elements.StoredApart v := by
  rw [StoredApart, atEveryLevel_record_iff]
  constructor
  · intro h key v hv
    exact h key v v hv hv
  · intro h key v w hv hw
    cases hv.symm.trans hw
    exact h key v hv

theorem storedApart_attributes_iff {kind : Kind Schema} {attributes : List (String × Schema)}
    (hk : kind.attributes? = some attributes) {entries : List (String × Value)} :
    (Schema.mk props kind).StoredApart (.map entries) ↔ NamesApart attributes entries ∧
      ∀ name child v, (name, child) ∈ attributes → Entries.get? name entries = some v →
        child.StoredApart v := by
  rw [StoredApart, atEveryLevel_attributes_iff hk]
  refine and_congr_right fun _ => ⟨?_, ?_⟩
  · intro h name child v hm hv
    exact h name child v v hm hv hv
  · intro h name child v w hm hv hw
    cases hv.symm.trans hw
    exact h name child v hm hv

end StoredApart

end Schema

/-! ## Attributes that are read -/

/-- A shown attribute is reported wherever something stands under its stored name. -/
theorem get?_formatAttributes {path : ValuePath} {attributes : List (String × Schema)}
    (hd : Entries.Distinct attributes) {stored formatted : List (String × Value)}
    (h : formatAttributes attributes path stored = .ok formatted) {name : String} {schema : Schema}
    (hm : (name, schema) ∈ attributes) (shown : schema.isHidden = false) {t : Value}
    (ht : Entries.get? (schema.storedName name) stored = some t) :
    ∃ place w, formatNode schema place t = .ok w ∧ Entries.get? name formatted = some w := by
  induction attributes generalizing formatted with
  | nil => cases hm
  | cons declared rest ih =>
    obtain ⟨hfresh, hd⟩ := Entries.distinct_cons.mp hd
    rw [formatAttributes] at h
    rcases List.mem_cons.mp hm with rfl | hm
    · simp only [shown, Bool.false_eq_true, if_false, ht] at h
      split at h
      · cases h
      · rename_i w hw
        split at h
        · cases h
        · cases h
          exact ⟨_, w, hw, Entries.get?_cons_self (name, w) _⟩
    · have hne : declared.1 ≠ name := by
        rintro rfl
        exact hfresh (Entries.mem_names.mpr ⟨schema, hm⟩)
      split at h
      · exact ih hd h hm
      · split at h
        · exact ih hd h hm
        · split at h
          · cases h
          · split at h
            · cases h
            · rename_i others ho
              cases h
              obtain ⟨place, w, hw, hget⟩ := ih hd ho hm
              refine ⟨place, w, hw, ?_⟩
              rw [Entries.get?_cons_ne]
              · exact hget
              · exact hne

/-! ## Trees -/

/-- The tree is restored if absent attributes share no stored name with present ones; and they do not
if no attribute is invented. -/
structure Filled.RestoredIfApart (schema : Schema) (filled : Filled) : Prop where
  restored {f : Value} {path : ValuePath} {t : Value} (hv : filled.value? = some f)
    (hs : filled.store path = .ok (some t)) (apart : schema.StoredApart f) :
    filled.RestoredBy schema
  apart {f : Value} {path : ValuePath} {t : Value} {place : ValuePath} {r : Value}
    (hv : filled.value? = some f) (hs : filled.store path = .ok (some t))
    (hr : formatNode schema place t = .ok r) (honest : schema.InventsNothing f r) :
    schema.StoredApart f

section Kinds

variable {props : Props} {elements : Schema}

theorem restoredIfApart_scalar {kind : ScalarKind}
    (affix : ∀ given, props.transformer = some given → given.Affix) {v : Value}
    (hm : scalarMatches kind v = true) :
    (Filled.scalar props.transformer v).RestoredIfApart (.mk props (.scalar kind)) where
  restored _ _ _ := restoredBy_scalar (fun given h => (affix given h).faithful) hm
  apart _ _ _ _ := Schema.atEveryLevel_scalar kind _ _

/-- Members of sets are scalars. -/
theorem restoredIfApart_set {kind : ScalarKind} (hk : elements.kind = .scalar kind)
    {fs : List Filled} (each : ∀ f ∈ fs, f.Present ∧ f.RestoredIfApart elements) :
    (Filled.set fs).RestoredIfApart (.mk props (.set elements)) where
  restored _ hs _ := by
    obtain ⟨ts, hts, -⟩ := Filled.map_ok_iff.mp ((Filled.store_set _ fs).symm.trans hs)
    have stored := Filled.storeMembers_ok (fun f hf => (each f hf).1.stores) hts
    refine restoredBy_set fun f hf => ?_
    obtain ⟨u, -, place, hu⟩ := exists_of_forall₂_left stored f hf
    obtain ⟨v, hv⟩ := (each f hf).1.exists_value
    refine (each f hf).2.restored hv hu ?_
    obtain ⟨props, _⟩ := elements
    cases hk
    exact Schema.atEveryLevel_scalar kind v v
  apart _ _ _ _ := Schema.atEveryLevel_set elements _ _

theorem restoredIfApart_list {fs : List Filled}
    (each : ∀ f ∈ fs, f.Present ∧ f.RestoredIfApart elements) :
    (Filled.list fs).RestoredIfApart (.mk props (.list elements)) where
  restored hv hs apart := by
    cases hv
    rw [Schema.storedApart_list_iff] at apart
    obtain ⟨ts, hts, -⟩ := Filled.map_ok_iff.mp ((Filled.store_list _ fs).symm.trans hs)
    have stored := Filled.storeItems_ok (fun f hf => (each f hf).1.stores) hts
    refine restoredBy_list fun f hf => ?_
    obtain ⟨u, -, place, hu⟩ := exists_of_forall₂_left stored f hf
    obtain ⟨v, hv⟩ := (each f hf).1.exists_value
    exact (each f hf).2.restored hv hu (apart v (Filled.mem_itemValues.mpr ⟨f, hf, hv⟩))
  apart {f path t place r} hv hs hr honest := by
    cases hv
    obtain ⟨ts, hts, ht⟩ := Filled.map_ok_iff.mp ((Filled.store_list _ fs).symm.trans hs)
    cases ht
    have stored := Filled.storeItems_ok (fun f hf => (each f hf).1.stores) hts
    simp only [formatNode, formatKind] at hr
    split at hr
    · cases hr
    · rename_i ws hws
      cases hr
      have formatted := formatItems_ok_forall₂ hws
      have reported : List.Forall₂ (fun f w => ∃ v, f.value? = some v ∧
          (elements.InventsNothing v w → elements.StoredApart v)) fs ws := by
        refine forall₂_comp (fun f hf t w hstore hformat => ?_) stored formatted
        obtain ⟨path, ht⟩ := hstore
        obtain ⟨place, hw⟩ := hformat
        obtain ⟨v, hv⟩ := (each f hf).1.exists_value
        exact ⟨v, hv, (each f hf).2.apart hv ht hw⟩
      have values := (Filled.itemValues_of_forall₂ reported.flip).flip
      rw [Schema.InventsNothing, Schema.atEveryLevel_list_iff] at honest
      rw [Schema.storedApart_list_iff]
      intro v hv
      obtain ⟨position, hposition⟩ := List.mem_iff_getElem?.mp hv
      obtain ⟨w, hw, apart⟩ := exists_getElem?_of_forall₂ values hposition
      exact apart (honest position v w hposition hw)

theorem restoredIfApart_record {keys : Schema}
    (affix : ∀ given, keys.transformer? = some given → given.Affix) {fs : List (String × Filled)}
    (each : ∀ f ∈ fs, f.2.Present ∧ f.2.RestoredIfApart elements) :
    (Filled.record keys.transformer? fs).RestoredIfApart (.mk props (.record keys elements)) where
  restored hv hs apart := by
    cases hv
    rw [Schema.storedApart_record_iff] at apart
    obtain ⟨entries, he, -⟩ := Filled.map_ok_iff.mp ((Filled.store_record _ _ fs).symm.trans hs)
    obtain ⟨stored, hd, -⟩ := Filled.storeEntries_ok (fun f hf => (each f hf).1.stores) he
    have distinct : Entries.Distinct fs :=
      distinct_of_storedKeys hd (stored.flip.imp fun _ _ h => h.1)
    have faithful := fun given h => (affix given h).faithful
    refine restoredBy_record faithful fun f hf => ?_
    obtain ⟨entry, -, -, place, ht⟩ := exists_of_forall₂_left stored f hf
    obtain ⟨v, hv⟩ := (each f hf).1.exists_value
    exact (each f hf).2.restored hv ht (apart f.1 v (Filled.get?_entryValues distinct hf hv))
  apart {f path t place r} hv hs hr honest := by
    cases hv
    obtain ⟨entries, he, ht⟩ := Filled.map_ok_iff.mp ((Filled.store_record _ _ fs).symm.trans hs)
    cases ht
    obtain ⟨stored, hd, -⟩ := Filled.storeEntries_ok (fun f hf => (each f hf).1.stores) he
    have encoded : ∀ name ∈ Entries.names entries,
        ∃ key, Filled.encodeWith keys.transformer? (.string key) = .string name := by
      intro name hname
      obtain ⟨u, hu⟩ := Entries.mem_names.mp hname
      obtain ⟨f, -, hencode, -⟩ := exists_of_forall₂_right stored _ hu
      exact ⟨f.1, hencode⟩
    simp only [formatNode, formatKind] at hr
    split at hr
    · cases hr
    · rename_i reported hreported
      cases hr
      rw [Schema.InventsNothing, Schema.atEveryLevel_record_iff] at honest
      rw [Schema.storedApart_record_iff]
      intro key v hkey
      obtain ⟨f, hf, rfl, hv⟩ := Filled.mem_entryValues.mp (Entries.mem_of_get? hkey)
      obtain ⟨entry, hentry, hencode, place, ht⟩ := exists_of_forall₂_left stored f hf
      obtain ⟨place, w, hw, hget⟩ :=
        get?_formatEntries_of_encoded affix hd hreported encoded hentry hencode
      exact (each f hf).2.apart hv ht hw (honest f.1 v w hkey hget)

/-- An attribute with a value is read back from under its stored name. An absent one is read as well
if something stands under its own. -/
theorem restoredIfApart_attributes {mode : Mode} {kind : Kind Schema}
    {attributes : List (String × Schema)} {slots : List (Slot Filled)}
    (hk : kind.attributes? = some attributes) (hd : Entries.Distinct attributes)
    (shown : ∀ entry ∈ attributes, entry.2.isHidden = false)
    (each : List.Forall₂ (SlotWith Filled.RestoredIfApart) (kind.parsed mode attributes) slots) :
    (Filled.map slots).RestoredIfApart (.mk props kind) where
  restored {f path t} hv hs apart := by
    cases hv
    obtain ⟨names, below⟩ := (Schema.storedApart_attributes_iff hk).mp apart
    obtain ⟨entries, he, -⟩ := Filled.map_ok_iff.mp ((Filled.store_map path slots).symm.trans hs)
    have restored : List.Forall₂ (SlotWith Filled.RestoredBy) (kind.parsed mode attributes)
        slots := by
      refine forall₂_imp (fun entry hm slot hslot h => ⟨h.name, h.stored, ?_⟩) each
      refine h.content.imp_right fun ⟨present, content⟩ => ⟨present, ?_⟩
      obtain ⟨place, u, hu, -⟩ := Filled.get?_storeSlots he hslot present.stores
      obtain ⟨v, hv⟩ := present.exists_value
      have hget := (get?_slotValues_of_slotWith hd each hslot h).trans hv
      have hm := (Kind.parsed_sublist kind mode attributes).subset hm
      exact content.restored hv hu (below entry.1 entry.2 v hm hget)
    exact restoredBy_attributes hd restored names hk
  apart {f path t place r} hv hs hr honest := by
    cases hv
    obtain ⟨entries, he, ht⟩ := Filled.map_ok_iff.mp ((Filled.store_map path slots).symm.trans hs)
    cases ht
    obtain ⟨reported, hreported, rfl⟩ := (formatNode_attributes_ok_iff hk).mp hr
    obtain ⟨honest, below⟩ := (Schema.atEveryLevel_attributes_iff hk).mp honest
    refine (Schema.storedApart_attributes_iff hk).mpr ⟨?names, ?below⟩
    case names =>
      intro absent ha habsent present hp hpresent heq
      obtain ⟨v, hv⟩ := Entries.exists_get?_iff.mpr hpresent
      obtain ⟨_, _, t, -, -, -, hget⟩ := exists_stored_of_value hd each he hp hv
      rw [← heq] at hget
      obtain ⟨_, w, -, hw⟩ := get?_formatAttributes hd hreported ha (shown absent ha) hget
      exact habsent (honest (Entries.exists_get?_iff.mp ⟨w, hw⟩))
    case below =>
      intro name child v hm hv
      obtain ⟨content, _, t, h, hvalue, ht, hget⟩ := exists_stored_of_value hd each he hm hv
      obtain ⟨_, w, hw, hreport⟩ := get?_formatAttributes hd hreported hm (shown _ hm) hget
      exact h.apart hvalue ht hw (below name child v w hm hv hreport)

end Kinds

theorem restoredIfApart_rules (settings : Settings) : FillRules settings fun schema filled =>
    schema.WellFormed → schema.Plain → filled.RestoredIfApart schema where
  scalar hm wf plain := restoredIfApart_scalar plain.root.affix hm
  set each wf plain := by
    obtain ⟨-, kind, hk⟩ := wf.root
    refine restoredIfApart_set hk fun f hf => ⟨(each f hf).1, ?_⟩
    exact (each f hf).2 (wf.child List.mem_cons_self) (plain.child List.mem_cons_self)
  list each wf plain := by
    refine restoredIfApart_list fun f hf => ⟨(each f hf).1, ?_⟩
    exact (each f hf).2 (wf.child List.mem_cons_self) (plain.child List.mem_cons_self)
  record {props keys elements fs} each wf plain := by
    have hm : elements ∈ Kind.children (.record keys elements) := by simp [Kind.children]
    have affix := (plain.child List.mem_cons_self).root.affix
    refine restoredIfApart_record affix fun f hf => ⟨(each f hf).1, ?_⟩
    exact (each f hf).2 (wf.child hm) (plain.child hm)
  anyOf _ _ _ _ plain := absurd rfl (plain.root.notUnion _)
  attributes {props kind attributes slots} hk each wf plain := by
    have restorable : List.Forall₂ (SlotWith Filled.RestoredIfApart)
        (kind.parsed settings.mode attributes) slots := by
      refine forall₂_imp (fun entry he slot _ hslot => ⟨hslot.name, hslot.stored, ?_⟩) each
      have hm := Kind.mem_children hk ((Kind.parsed_sublist kind settings.mode attributes).subset he)
      exact hslot.content.imp_right fun h => ⟨h.1, h.2 (wf.child hm) (plain.child hm)⟩
    exact restoredIfApart_attributes hk (wf.distinct hk) (plain.root.shown attributes hk) restorable

/-- Without unions and hidden attributes, and with prefixes and suffixes for transformers at most:
formatting what a parse stores invents no attribute, at any place, exactly if no absent attribute has
the stored name of a present one, at any place. It then gives back what the parse has filled. -/
theorem format_reports_iff {schema : Schema} {options : ParseOptions} {input : Option Value}
    {f t : Value} (hb : schema.Built) (hp : schema.Plain) (hx : options.extension = none)
    (h : schema.StoresTo options input (some f) (some t)) :
    ((∃ r, schema.format t = .ok r ∧ schema.InventsNothing f r) ↔ schema.StoredApart f) ∧
      (schema.StoredApart f → schema.format t = .ok f) := by
  obtain ⟨filled, hf, hv, hs⟩ := Schema.exists_filled_of_storesTo h
  rw [hx] at hf
  rcases (restoredIfApart_rules _).fillNode hf with ⟨-, rules⟩ | ⟨-, rfl⟩
  · have readBack := rules hb.wellFormed hp
    have formats (apart : schema.StoredApart f) : schema.format t = .ok f := by
      obtain ⟨g, hg, restored⟩ := readBack.restored hv hs apart
      obtain ⟨u, hu, restores⟩ := restored _ _ hs
      cases hv.symm.trans hg
      cases hu
      rw [Schema.format, restores.formats, hp.shownPart_eq]
    refine ⟨⟨?_, fun apart => ⟨f, formats apart, schema.inventsNothing_refl f⟩⟩, formats⟩
    rintro ⟨r, hr, honest⟩
    exact readBack.apart hv hs hr honest
  · cases hv

/-- Two attributes of one stored name, both of them absent. -/
theorem format_reports_iff_absent_pair :
    let id := ((Schema.scalar .string).savedAs "pk").transform (.addPrefix "user" "#")
    let shared := ((Schema.scalar .string).savedAs "x").makeOptional
    let schema := Schema.ofKind (.map [("id", id), ("a", shared), ("b", shared)])
    let filled := Value.map [("id", .string "u")]
    let stored := Value.map [("pk", .string ("user" ++ "#" ++ "u"))]
    schema.StoresTo (.ofMode .put) (some filled) (some filled) (some stored) ∧
      schema.format stored = .ok filled := by
  intro id shared schema filled stored
  let attributes := [("id", id), ("a", shared), ("b", shared)]
  have children {child : Schema} (hc : child ∈ attributes.map Prod.snd) :
      child = id ∨ child = shared := by
    simpa [attributes] using hc
  have built : schema.Built := by
    have saved (name : String) : ((Schema.scalar .string).savedAs name).Built :=
      .withProps (.scalar .string) fun props => { props with savedAs := some name }
    refine .map (fun entry he => ?_) (rfl : Schema.map? attributes = _)
    rcases children (List.mem_map_of_mem he) with h | h
    · rw [h]
      exact .withProps (saved "pk")
        fun props => { props with transformer := some (.addPrefix "user" "#") }
    · rw [h]
      exact .withProps (saved "x") fun props => { props with required := .never }
  have plain : schema.Plain := by
    refine Schema.everywhere_iff.mpr ⟨⟨?_, ?_, ?_⟩, fun child hc => ?_⟩
    · intro members h
      cases h
    · intro _ h
      cases h
      decide
    · intro given h
      cases h
    · have affix : ∀ given, child.transformer? = some given → given.Affix := by
        intro given h
        rcases children hc with rfl | rfl
        · cases h
          exact .before "user" "#"
        · cases h
      have scalar : child.kind = .scalar .string := by
        rcases children hc with rfl | rfl <;> rfl
      refine Schema.everywhere_iff.mpr ⟨⟨?_, ?_, affix⟩, fun inner hi => ?_⟩
      · simp [scalar]
      · simp [scalar, Kind.attributes?]
      · simp [Schema.children, scalar, Kind.children] at hi
  have apart : schema.StoredApart filled := by
    refine (Schema.storedApart_attributes_iff rfl).mpr ⟨?_, fun name child v hm _ => ?_⟩
    · unfold NamesApart
      decide
    · rcases children (List.mem_map_of_mem hm) with rfl | rfl
      · exact Schema.atEveryLevel_scalar .string v v
      · exact Schema.atEveryLevel_scalar .string v v
  have steps : schema.StoresTo (.ofMode .put) (some filled) (some filled) (some stored) :=
    ⟨_, _, rfl, rfl⟩
  exact ⟨steps, (format_reports_iff built plain rfl steps).2 apart⟩

/-- An attribute invented: of two attributes with one stored name the absent one is reported too. -/
theorem format_reports_absent_attribute :
    let shared := ((Schema.scalar .string).savedAs "x").makeOptional
    let schema := Schema.ofKind (.map [("a", shared), ("b", shared)])
    let filled := Value.map [("b", .string "v")]
    let stored := Value.map [("x", .string "v")]
    let reported := Value.map [("a", .string "v"), ("b", .string "v")]
    schema.StoresTo (.ofMode .put) (some filled) (some filled) (some stored) ∧
      schema.format stored = .ok reported ∧ ¬ schema.InventsNothing filled reported := by
  intro shared schema filled stored reported
  refine ⟨⟨_, _, rfl, rfl⟩, rfl, fun honest => ?_⟩
  have names : ["a", "b"] ⊆ ["b"] := honest _ _ _ (.here rfl)
  exact absurd names (by decide)

end ItemShape
