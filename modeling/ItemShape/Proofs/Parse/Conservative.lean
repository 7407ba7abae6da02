import ItemShape.Proofs.Parse.Filled
import ItemShape.Proofs.Parse.Keeps
import ItemShape.Proofs.Schema.Built

/-!
# ItemShape.Proofs.Parse.Conservative

The first step keeps its input: a filled value contains the value it was filled from (`Keeps`).

* `Conservative`: an extension that leaves absent values alone and keeps the inputs it owns.
* `fillKind_keeps`: a kind keeps its value if its children keep theirs.
* `fillNode_keeps`: with such an extension every node keeps its input, by induction on the schema.
-/

namespace ItemShape

/-- What an extension must do for a parse to keep its input. -/
structure Conservative (extension : Option Extension) : Prop where
  absent : ∀ schema settings,
    Extension.consult extension schema settings none = .unextended none
  handed : ∀ schema settings v given,
    Extension.consult extension schema settings (some v) = .unextended given → given = some v
  owned : ∀ schema settings v parser value, schema.WellFormed → v.DistinctNames →
    Extension.consult extension schema settings (some v) = .extended parser →
      parser.next.1.getD (.ok none) = .ok value → ∃ w, value = some w ∧
        Keeps settings.mode settings.fill schema (schema.considered settings.mode v) w

theorem conservative_none : Conservative none where
  absent _ _ := rfl
  handed _ _ _ _ h := by cases h; rfl
  owned _ _ _ _ _ _ _ h := by cases h

/-- The absent value of an attribute is filled in only by a link or a default. -/
theorem link_or_default_of_absent {extension : Option Extension} (hx : Conservative extension)
    {schema : Schema} {settings : Settings} {scope : Option LinkContext} {filled : Filled}
    {w : Value}
    (h : fillNode schema extension settings scope none = .ok filled) (hw : filled.value? = some w) :
    settings.fill = true ∧
      ((schema.link? settings.mode).isSome ∨ (schema.default? settings.mode).isSome) := by
  obtain ⟨props, kind⟩ := schema
  have hc := hx.absent (.mk props kind) settings
  cases hr : resolved props settings scope none with
  | none =>
    obtain ⟨_, rfl⟩ := (fillNode_absent_ok_iff hc hr).mp h
    cases hw
  | some v =>
    simp only [resolved] at hr
    split at hr
    · rename_i hf
      refine ⟨hf, ?_⟩
      simp only [resolveMissing] at hr
      cases hl : props.links.get? settings.mode with
      | some link => exact .inl (by simp [Schema.link?, Schema.props, hl])
      | none =>
        cases hd : props.defaults.get? settings.mode with
        | some default => exact .inr (by simp [Schema.default?, Schema.props, hd])
        | none => simp [hl, hd] at hr
    · cases hr

section

variable {extension : Option Extension} {settings : Settings} {input : List (String × Value)}
  {attributes : List (String × Schema)} {slots : List (Slot Filled)}

/-- A map whose parsed attributes keep what they are given keeps its entries. -/
theorem keeps_attributes (hx : Conservative extension) {props : Props} {kind : Kind Schema}
    (hk : kind.attributes? = some attributes) (hd : Entries.Distinct attributes)
    (hu : Entries.names input ⊆ Entries.names attributes)
    (hs : List.Forall₂ (SlotOf extension settings input) (kind.parsed settings.mode attributes)
      slots)
    (ih : ∀ entry ∈ kind.parsed settings.mode attributes, ∀ path context v filled,
      (entry.1, v) ∈ input →
      fillNode entry.2 extension (settings.at path) (some context) (some v) = .ok filled →
        ∃ w, filled.value? = some w ∧ Keeps settings.mode settings.fill entry.2 v w) :
    Keeps settings.mode settings.fill (.mk props kind)
      ((Schema.mk props kind).considered settings.mode (.map input))
      (.map (Filled.slotValues slots)) := by
  let parsed := kind.parsed settings.mode attributes
  have hdp : Entries.Distinct parsed := hd.sublist (Kind.parsed_sublist kind _ attributes)
  have hnodup : (slots.map Slot.name).Nodup := by rw [slot_names hs]; exact hdp
  -- What the map holds under the name of a parsed attribute is the value of its slot.
  have held : ∀ entry ∈ parsed, ∃ slot, SlotOf extension settings input entry slot ∧
      Entries.get? entry.1 (Filled.slotValues slots) = slot.content.value? := by
    intro entry he
    obtain ⟨slot, hm, hslot⟩ := exists_of_forall₂_left hs entry he
    refine ⟨slot, hslot, ?_⟩
    rw [← hslot.name]
    exact Filled.get?_slotValues hnodup hm
  rw [considered_map hk hu]
  let shown := input.filter fun entry => Entries.contains entry.1 parsed
  have get_shown : ∀ name v, Entries.get? name shown = some v →
      name ∈ Entries.names parsed ∧ (name, v) ∈ input := by
    intro name v hv
    have hm := List.mem_filter.mp (Entries.mem_of_get? hv)
    exact ⟨Entries.contains_iff.mp hm.2, hm.1⟩
  have get_input : ∀ name v, name ∈ Entries.names parsed → Entries.get? name shown = some v →
      Entries.get? name input = some v := by
    intro name v hn hv
    rwa [Entries.get?_filter (fun name => Entries.contains name parsed),
      if_pos (Entries.contains_iff.mpr hn)] at hv
  -- An entry of the input is kept: its attribute is filled from it, and so has a value.
  have kept : ∀ name schema v, (name, schema) ∈ parsed → Entries.get? name shown = some v →
      ∃ w, Entries.get? name (Filled.slotValues slots) = some w ∧
        Keeps settings.mode settings.fill schema v w := by
    intro name schema v he hv
    obtain ⟨slot, hslot, hget⟩ := held (name, schema) he
    obtain ⟨path, context, hf⟩ := hslot.content
    have hvi := get_input name v (Entries.mem_names_of_mem he) hv
    dsimp only at hf hget
    rw [hvi] at hf
    obtain ⟨w, hw, hkeeps⟩ := ih _ he path context v _ (Entries.mem_of_get? hvi) hf
    exact ⟨w, hget.trans hw, hkeeps⟩
  refine .attributes hk ?distinct ?declared ?kept ?each ?added
  case distinct => exact List.Nodup.sublist (Filled.names_slotValues slots) hnodup
  case declared =>
    intro name hn
    obtain ⟨v, hv⟩ := Entries.exists_get?_iff.mpr hn
    exact (get_shown name v hv).1
  case kept =>
    intro name hn
    obtain ⟨v, hv⟩ := Entries.exists_get?_iff.mpr hn
    obtain ⟨schema, he⟩ := Entries.mem_names.mp (get_shown name v hv).1
    obtain ⟨w, hw, _⟩ := kept name schema v he hv
    exact Entries.exists_get?_iff.mp ⟨w, hw⟩
  case each =>
    intro name schema he v w hv hw
    obtain ⟨w', hw', hkeeps⟩ := kept name schema v he hv
    rw [hw] at hw'
    cases hw'
    exact hkeeps
  case added =>
    intro name hn hnot
    obtain ⟨w, hw⟩ := Entries.mem_names.mp hn
    obtain ⟨slot, hm, hname, hvalue⟩ := Filled.exists_slot_of_mem hw
    obtain ⟨entry, he, hslot⟩ := exists_of_forall₂_right hs slot hm
    obtain ⟨path, context, hf⟩ := hslot.content
    have hentry : entry.1 = name := hslot.name.symm.trans hname
    have hinput : Entries.get? entry.1 input = none := by
      rw [hentry]
      rw [← Entries.get?_eq_none_iff,
        Entries.get?_filter (fun name => Entries.contains name parsed),
        if_pos (Entries.contains_iff.mpr (hentry ▸ Entries.mem_names_of_mem he))] at hnot
      exact hnot
    rw [hinput] at hf
    obtain ⟨hfill, hfrom⟩ := link_or_default_of_absent hx hf hvalue
    exact ⟨hfill, entry.2, hentry ▸ he, hfrom⟩

end

theorem value_of_scalar {schema : Schema} {kind : ScalarKind} {settings : Settings}
    {scope : Option LinkContext} {v : Value} {filled : Filled} (hk : schema.kind = .scalar kind)
    (h : fillNode schema none settings scope (some v) = .ok filled) : filled.value? = some v := by
  obtain ⟨props, _⟩ := schema
  cases hk
  obtain ⟨hkind, _⟩ := fillNode_some_ok_iff.mp h
  obtain ⟨_, rfl⟩ := fillKind_scalar_ok_iff.mp hkind
  rfl

section Kinds

variable {mode : Mode} {fill : Bool} {props : Props} {elements : Schema}

theorem keeps_set {kind : ScalarKind} (hk : elements.kind = .scalar kind) {settings : Settings}
    {scope : Option LinkContext} {members : List Value} {fs : List Filled}
    (hs : List.Forall₂ (fun member f =>
      fillNode elements none settings scope (some member) = .ok f) members fs) :
    Keeps mode fill (.mk props (.set elements)) (.list members) (.list (Filled.itemValues fs)) := by
  have hmembers : List.Forall₂ Eq members (Filled.itemValues fs) := by
    refine Filled.itemValues_of_forall₂ (hs.imp fun member f hf => ⟨member, ?_, rfl⟩)
    exact value_of_scalar hk hf
  rw [List.forall₂_eq_eq_eq] at hmembers
  rw [← hmembers]
  exact .set

theorem keeps_list {items : List Value} {fs : List Filled}
    (hs : List.Forall₂ (fun item f => ∃ w, f.value? = some w ∧ Keeps mode fill elements item w)
      items fs) :
    Keeps mode fill (.mk props (.list elements)) (.list items) (.list (Filled.itemValues fs)) := by
  have hitems : List.Forall₂ (Keeps mode fill elements) items (Filled.itemValues fs) :=
    Filled.itemValues_of_forall₂ hs
  obtain ⟨length, each⟩ := List.forall₂_iff_zip.mp hitems
  exact .list length fun _ hp => each hp

theorem keeps_record {keys : Schema} {entries : List (String × Value)}
    {fs : List (String × Filled)}
    (hs : List.Forall₂ (fun entry f => entry.1 = f.1 ∧
      ∃ w, f.2.value? = some w ∧ Keeps mode fill elements entry.2 w) entries fs) :
    Keeps mode fill (.mk props (.record keys elements)) (.map entries)
      (.map (Filled.entryValues fs)) := by
  have hentries : List.Forall₂ (fun entry other => entry.1 = other.1 ∧
      Keeps mode fill elements entry.2 other.2) entries (Filled.entryValues fs) := by
    refine Filled.entryValues_of_forall₂ (hs.imp fun entry f h => ?_)
    obtain ⟨hname, w, hw, hk⟩ := h
    exact ⟨w, hw, hname, hk⟩
  obtain ⟨length, each⟩ := List.forall₂_iff_zip.mp hentries
  have names := Entries.names_eq_of_forall₂ (hentries.imp fun _ _ h => h.1)
  exact .record names fun _ hp => (each hp).2

end Kinds

/-- Every value the schema is filled from is kept, wherever that happens. -/
def Schema.KeepsInput (schema : Schema) (extension : Option Extension) (settings : Settings) :
    Prop :=
  ∀ path scope v filled, v.DistinctNames →
    fillNode schema extension (settings.at path) scope (some v) = .ok filled →
      ∃ w, filled.value? = some w ∧
        Keeps settings.mode settings.fill schema (schema.considered settings.mode v) w

theorem fillKind_keeps {extension : Option Extension} (hx : Conservative extension) {props : Props}
    {kind : Kind Schema} (wf : (Schema.mk props kind).WellFormed) {settings : Settings}
    (each : ∀ schema ∈ kind.children, schema.KeepsInput extension settings)
    {transformer : Option Transformer} {scope : Option LinkContext} {v : Value} {filled : Filled}
    (hd : v.DistinctNames)
    (h : fillKind kind transformer extension settings scope v = .ok filled) :
    ∃ w, filled.value? = some w ∧ Keeps settings.mode settings.fill (.mk props kind)
      ((Schema.mk props kind).considered settings.mode v) w := by
  have fit := wf.root
  -- Children are no items, so that what is said of them is said of their whole input.
  have child : ∀ schema ∈ kind.children, schema.isItem = false → ∀ path {scope v filled},
      v.DistinctNames →
      fillNode schema extension (settings.at path) scope (some v) = .ok filled →
        ∃ w, filled.value? = some w ∧ Keeps settings.mode settings.fill schema v w := by
    intro schema hm hi path scope v filled hd h
    obtain ⟨w, hw, hk⟩ := each schema hm path scope v filled hd h
    rw [Schema.considered_of_not_item hi] at hk
    exact ⟨w, hw, hk⟩
  have whole : (Schema.mk props kind).isItem = false →
      (Schema.mk props kind).considered settings.mode v = v :=
    fun hi => Schema.considered_of_not_item hi _ _
  have named : ∀ attributes, kind.attributes? = some attributes →
      (Entries.Distinct attributes ∧ ∀ entry ∈ attributes, entry.2.isItem = false) →
      ∃ w, filled.value? = some w ∧ Keeps settings.mode settings.fill (.mk props kind)
        ((Schema.mk props kind).considered settings.mode v) w := by
    intro attributes hk fit
    obtain ⟨input, slots, rfl, rfl, hu, hs⟩ := fillKind_attributes_ok hk h
    rw [Value.distinctNames_map] at hd
    refine ⟨_, rfl, keeps_attributes hx hk fit.1 hu hs ?_⟩
    intro entry he path context v filled hv hf
    have hm := (Kind.parsed_sublist _ _ _).subset he
    exact child entry.2 (Kind.mem_children hk hm) (fit.2 entry hm) path (hd.2 _ hv) hf
  cases kind with
  | scalar kind =>
    obtain ⟨_, rfl⟩ := fillKind_scalar_ok_iff.mp h
    rw [whole rfl]
    exact ⟨v, rfl, .scalar⟩
  | set elements =>
    obtain ⟨_, scalar, hscalar⟩ : elements.IsElement ∧ ∃ kind, elements.kind = .scalar kind := fit
    obtain ⟨members, fs, rfl, rfl, _, hs⟩ := fillKind_set_ok h
    rw [whole rfl]
    exact ⟨_, rfl, keeps_set hscalar hs⟩
  | list elements =>
    have helement : elements.IsElement := fit
    obtain ⟨items, fs, rfl, rfl, hs⟩ := fillKind_list_ok h
    rw [Value.distinctNames_list] at hd
    rw [whole rfl]
    refine ⟨_, rfl, keeps_list (forall₂_imp (fun item hi f _ hf => ?_) hs)⟩
    obtain ⟨path, hf⟩ := hf
    exact child elements List.mem_cons_self helement.notItem path (hd item hi) hf
  | record keys elements =>
    obtain ⟨_, helement, _⟩ : keys.IsElement ∧ elements.IsElement ∧
      keys.kind = .scalar .string := fit
    obtain ⟨input, fs, rfl, rfl, hs⟩ := fillKind_record_ok h
    rw [Value.distinctNames_map] at hd
    rw [whole rfl]
    refine ⟨_, rfl, keeps_record (forall₂_imp (fun entry he f _ hf => ?_) hs)⟩
    obtain ⟨hname, _, path, hf⟩ := hf
    exact ⟨hname, child elements (by simp [Kind.children]) helement.notItem path (hd.2 entry he) hf⟩
  | anyOf members =>
    obtain ⟨_, helements⟩ : members ≠ [] ∧ ∀ member ∈ members, member.IsElement := fit
    obtain ⟨member, hm, hf⟩ := fillFirst_eq_some (fillKind_anyOf_ok_iff.mp h)
    obtain ⟨w, hw, hk⟩ := child member hm (helements member hm).notItem settings.path hd hf
    rw [whole rfl]
    exact ⟨w, hw, .anyOf hm hk⟩
  | map attributes => exact named attributes rfl fit
  | item attributes => exact named attributes rfl fit

theorem fillNode_keeps {extension : Option Extension} (hx : Conservative extension) :
    ∀ {schema : Schema}, schema.WellFormed → ∀ settings, schema.KeepsInput extension settings := by
  intro schema
  induction schema using Schema.induct with
  | node props kind ih =>
    intro wf settings path scope v filled hd h
    cases hc : Extension.consult extension (.mk props kind) (settings.at path) (some v) with
    | extended parser =>
      obtain ⟨value, hv, rfl⟩ := (fillNode_extended_ok_iff hc).mp h
      exact hx.owned _ (settings.at path) _ _ _ wf hd hc hv
    | unextended given =>
      cases hx.handed _ _ _ _ hc
      obtain ⟨hkind, _⟩ := (fillNode_present_ok_iff hc rfl).mp h
      have each : ∀ schema ∈ kind.children, schema.KeepsInput extension (settings.at path) :=
        fun schema hm => ih schema hm (wf.child hm) _
      exact fillKind_keeps hx wf each hd hkind

/-! ## Without filling -/

section

variable {extension : Option Extension} {props : Props} {kind : Kind Schema} {schema : Schema}
  {transformer : Option Transformer} {settings : Settings} {scope : Option LinkContext} {v : Value}
  {filled : Filled}

theorem value_of_absent_unfilled (hx : Conservative extension) (hfill : settings.fill = false)
    (h : fillNode schema extension settings scope none = .ok filled) : filled.value? = none := by
  cases hw : filled.value? with
  | none => rfl
  | some w =>
    have hon := (link_or_default_of_absent hx h hw).1
    rw [hfill] at hon
    cases hon

theorem fillNode_equal_of_conservative (hx : Conservative extension) (wf : schema.WellFormed)
    (hfill : settings.fill = false) (hmode : settings.mode ≠ .key) (hd : v.DistinctNames)
    (h : fillNode schema extension settings scope (some v) = .ok filled) :
    ∃ w, filled.value? = some w ∧ v.equal w = true ∧ w.DistinctNames := by
  obtain ⟨w, hw, hk⟩ := fillNode_keeps hx wf settings settings.path scope v filled hd h
  rw [Schema.considered, if_neg hmode, hfill] at hk
  exact ⟨w, hw, hk.equal hd⟩

/-- A kind hands on a value equal to its input. -/
theorem fillKind_equal_of_conservative (hx : Conservative extension)
    (wf : (Schema.mk props kind).WellFormed) (hfill : settings.fill = false)
    (hmode : settings.mode ≠ .key) (hd : v.DistinctNames)
    (h : fillKind kind transformer extension settings scope v = .ok filled) :
    ∃ w, filled.value? = some w ∧ v.equal w = true ∧ w.DistinctNames := by
  have each : ∀ schema ∈ kind.children, schema.KeepsInput extension settings :=
    fun schema hm => fillNode_keeps hx (wf.child hm) settings
  obtain ⟨w, hw, hk⟩ := fillKind_keeps hx wf each hd h
  rw [Schema.considered, if_neg hmode, hfill] at hk
  exact ⟨w, hw, hk.equal hd⟩

theorem fillKind_equal (wf : (Schema.mk props kind).WellFormed) (hfill : settings.fill = false)
    (hmode : settings.mode ≠ .key) (hd : v.DistinctNames)
    (h : fillKind kind transformer none settings scope v = .ok filled) :
    ∃ w, filled.value? = some w ∧ v.equal w = true ∧ w.DistinctNames :=
  fillKind_equal_of_conservative conservative_none wf hfill hmode hd h

end

end ItemShape
