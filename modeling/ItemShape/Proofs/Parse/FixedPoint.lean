import ItemShape.Proofs.Parse.Conservative
import ItemShape.Proofs.Parse.Present
import ItemShape.Proofs.Parse.Steps
import ItemShape.Proofs.Parse.Update

/-!
# ItemShape.Proofs.Parse.FixedPoint

A filled value is complete: filled again without filling, it gives the tree it came from. The tree
holds all that the second step needs, so the whole parse repeats itself (`parse_filled_again`).
Unions are left out, where an earlier member may take what a later one has filled.

* `fillAttributes_eq_ok`: a map whose attributes yield the same in every context.
* `Repeats`: an extension that takes what it made of an input as it took the input.
* `fillKind_refill`: a kind repeats itself if its children do.
* `Schema.refills`: every node does, by induction on the schema.
* `action?_again`: a recognised operation, carried out, is recognised again as the same action.
-/

namespace ItemShape

/-- The same settings without filling. -/
def Settings.unfilled (settings : Settings) : Settings :=
  { settings with fill := false }

/-- No node of the schema is a union. -/
def Schema.Unionless (schema : Schema) : Prop :=
  schema.Everywhere fun node => ∀ members, node.kind ≠ .anyOf members

/-! ## Lists, sets and records -/

section Children

variable {settings : Settings}

theorem fillItems_refill {f g : Settings → Option Value → Except SchemaError Filled}
    (again : ∀ path item filled, f (settings.at path) (some item) = .ok filled →
      ∃ w, filled.value? = some w ∧ g (settings.unfilled.at path) (some w) = .ok filled)
    {position : Nat} {items : List Value} {fs : List Filled}
    (h : fillItems f settings position items = .ok fs) :
    fillItems g settings.unfilled position (Filled.itemValues fs) = .ok fs := by
  induction items generalizing position fs with
  | nil =>
    cases h
    rfl
  | cons item rest ih =>
    obtain ⟨filled, others, hf, hr, rfl⟩ := fillItems_cons_ok_iff.mp h
    obtain ⟨w, hw, hg⟩ := again _ _ _ hf
    rw [Filled.itemValues, hw]
    exact fillItems_cons_ok_iff.mpr ⟨filled, others, hg, ih hr, rfl⟩

theorem fillMembers_refill {f g : Option Value → Except SchemaError Filled}
    (again : ∀ member filled, f (some member) = .ok filled →
      ∃ w, filled.value? = some w ∧ g (some w) = .ok filled)
    {members : List Value} {fs : List Filled} (h : fillMembers f members = .ok fs) :
    fillMembers g (Filled.itemValues fs) = .ok fs := by
  induction members generalizing fs with
  | nil =>
    cases h
    rfl
  | cons member rest ih =>
    obtain ⟨filled, others, hf, hr, rfl⟩ := fillMembers_cons_ok_iff.mp h
    obtain ⟨w, hw, hg⟩ := again _ _ hf
    rw [Filled.itemValues, hw]
    exact fillMembers_cons_ok_iff.mpr ⟨filled, others, hg, ih hr, rfl⟩

theorem fillEntries_refill {f g f' g' : Settings → Option Value → Except SchemaError Filled}
    (key : ∀ path key filled, f (settings.at path) (some (.string key)) = .ok filled →
      g (settings.unfilled.at path) (some (.string key)) = .ok filled)
    (again : ∀ path element filled, f' (settings.at path) (some element) = .ok filled →
      ∃ w, filled.value? = some w ∧ g' (settings.unfilled.at path) (some w) = .ok filled)
    {entries : List (String × Value)} {fs : List (String × Filled)}
    (h : fillEntries f f' settings entries = .ok fs) :
    fillEntries g g' settings.unfilled (Filled.entryValues fs) = .ok fs := by
  induction entries generalizing fs with
  | nil =>
    cases h
    rfl
  | cons entry rest ih =>
    obtain ⟨name, element⟩ := entry
    obtain ⟨filled, others, ⟨checked, hk⟩, he, hr, rfl⟩ := fillEntries_cons_ok_iff.mp h
    obtain ⟨w, hw, hg⟩ := again _ _ _ he
    rw [Filled.entryValues, hw]
    exact fillEntries_cons_ok_iff.mpr
      ⟨filled, others, ⟨checked, key _ _ _ hk⟩, hg, ih hr, rfl⟩

end Children

/-! ## Maps -/

section Attributes

variable {keyOnly : Bool} {settings : Settings} {scope : Option LinkContext}
  {input : List (String × Value)}

/-- The slot holds what the attribute is filled with in every context. -/
structure Child.AlwaysFills (settings : Settings) (input : List (String × Value)) (child : Child)
    (slot : Slot Filled) : Prop where
  name : slot.name = child.name
  stored : slot.stored = child.stored
  content : ∀ context, child.fill (settings.at (settings.path.member child.name)) (some context)
    (Entries.get? child.name input) = .ok slot.content

theorem Child.AlwaysFills.slot_eq {child : Child} {slot : Slot Filled}
    (h : child.AlwaysFills settings input slot) :
    ⟨child.name, child.stored, slot.content⟩ = slot := by
  rw [← h.name, ← h.stored]

theorem fillDeferred_eq_ok {attempts : List (Child × Attempt)} {siblings : List (String × Value)}
    {slots : List (Slot Filled)}
    (sound : ∀ entry ∈ attempts, Attempt.Sound keyOnly settings input entry)
    (hs : List.Forall₂ (Child.AlwaysFills settings input)
      ((attempts.map Prod.fst).filter (Child.isParsed keyOnly)) slots) :
    fillDeferred settings scope attempts siblings = .ok slots := by
  induction attempts generalizing siblings slots with
  | nil =>
    cases hs
    rfl
  | cons entry rest ih =>
    obtain ⟨child, attempt⟩ := entry
    obtain ⟨hsound, hrest⟩ := List.forall_mem_cons.mp sound
    rw [List.map_cons] at hs
    cases attempt with
    | skipped =>
      rw [List.filter_cons_of_neg (by simpa [Attempt.Sound] using hsound)] at hs
      simp only [fillDeferred]
      exact ih hrest hs
    | deferred =>
      rw [List.filter_cons_of_pos hsound.1] at hs
      cases hs with
      | cons hslot hs =>
        have hcontent := hslot.content (LinkContext.nested scope siblings)
        rw [hsound.2] at hcontent
        dsimp only at hcontent
        simp only [fillDeferred, hcontent, ih hrest hs, hslot.slot_eq]
    | done outcome =>
      rw [List.filter_cons_of_pos hsound.1] at hs
      obtain ⟨context, hy⟩ := hsound.2
      cases hs with
      | cons hslot hs =>
        have houtcome := hy.trans (hslot.content context)
        simp only [houtcome, fillDeferred, ih hrest hs, hslot.slot_eq]

theorem fillAttributes_eq_ok {children : List Child} {slots : List (Slot Filled)}
    (hu : Entries.names input ⊆ children.map Child.name)
    (hs : List.Forall₂ (Child.AlwaysFills settings input)
      (children.filter (Child.isParsed keyOnly)) slots) :
    fillAttributes children keyOnly settings scope input = .ok (.map slots) := by
  obtain ⟨hm, sound⟩ := fillDirect_sound keyOnly settings scope input children []
  rw [← hm] at hs
  simp only [fillAttributes, undeclared?_eq_none_iff.mpr hu, fillDeferred_eq_ok sound hs]

end Attributes

theorem fillAttributes_refill {keyOnly : Bool} {settings : Settings}
    {scope scope' : Option LinkContext} {input : List (String × Value)} {children : List Child}
    (hd : (children.map Child.name).Nodup)
    (again : ∀ child ∈ children, ∀ path context raw filled,
      child.fill (settings.at path) context raw = .ok filled → ∀ context',
        child.fill (settings.unfilled.at path) context' filled.value? = .ok filled)
    {filled : Filled} (h : fillAttributes children keyOnly settings scope input = .ok filled) :
    ∃ slots, filled = .map slots ∧
      fillAttributes children keyOnly settings.unfilled scope' (Filled.slotValues slots) =
        .ok filled := by
  obtain ⟨-, slots, rfl, hs⟩ := fillAttributes_ok h
  have hnames : slots.map Slot.name =
      (children.filter (Child.isParsed keyOnly)).map Child.name :=
    map_eq_map_iff.mpr (hs.flip.imp fun _ _ h => h.name)
  have hsub : List.Sublist (slots.map Slot.name) (children.map Child.name) := by
    rw [hnames]
    exact List.filter_sublist.map _
  refine ⟨slots, rfl, fillAttributes_eq_ok ?declared ?fills⟩
  case declared => exact ((Filled.names_slotValues slots).trans hsub).subset
  case fills =>
    refine forall₂_imp (fun child hc slot hm h => ⟨h.name, h.stored, fun context => ?_⟩) hs
    obtain ⟨context', hy⟩ := h.content
    rw [← h.name, Filled.get?_slotValues (hd.sublist hsub) hm, h.name]
    exact again child (List.mem_of_mem_filter hc) _ _ _ _ hy.symm _

/-! ## Whole schemas -/

/-- What an extension owns stays with it when it is filled again, and what has no operation in it is
none of its concern. -/
structure Repeats (extension : Option Extension) : Prop where
  absent : ∀ schema settings,
    Extension.consult extension schema settings none = .unextended none
  plain : ∀ schema settings v, v.operation? = none →
    Extension.consult extension schema settings (some v) = .unextended (some v)
  handed : ∀ schema settings v given,
    Extension.consult extension schema settings (some v) = .unextended given → given = some v
  owned : ∀ schema settings v parser value, schema.WellFormed → schema.Unionless →
    Extension.consult extension schema settings (some v) = .extended parser →
      parser.next.1.getD (.ok none) = .ok value → ∃ w, value = some w ∧
        Extension.consult extension schema settings.unfilled (some w) = .extended parser

theorem repeats_none : Repeats none where
  absent _ _ := rfl
  plain _ _ _ _ := rfl
  handed _ _ _ _ h := by cases h; rfl
  owned _ _ _ _ _ _ _ h := by cases h

/-- Filled again without filling, the schema gives the same tree. -/
def Schema.Refills (schema : Schema) : Prop :=
  ∀ extension, Repeats extension → ∀ settings scope scope' input filled,
    fillNode schema extension settings scope input = .ok filled →
      fillNode schema extension settings.unfilled scope' filled.value? = .ok filled

section Kinds

variable {kind : Kind Schema} {transformer : Option Transformer} {extension : Option Extension}
  {settings : Settings} {scope : Option LinkContext} {v : Value} {filled : Filled}

theorem fillKind_value (hu : ∀ members, kind ≠ .anyOf members)
    (h : fillKind kind transformer extension settings scope v = .ok filled) :
    ∃ w, filled.value? = some w ∧ w.operation? = none := by
  cases kind with
  | scalar kind =>
    obtain ⟨hm, rfl⟩ := fillKind_scalar_ok_iff.mp h
    refine ⟨v, rfl, ?_⟩
    cases v with
    | op operation => cases kind <;> cases hm
    | _ => rfl
  | set elements =>
    obtain ⟨_, _, _, rfl, _⟩ := fillKind_set_ok h
    exact ⟨_, rfl, rfl⟩
  | list elements =>
    obtain ⟨_, _, _, rfl, _⟩ := fillKind_list_ok h
    exact ⟨_, rfl, rfl⟩
  | record keys elements =>
    obtain ⟨_, _, _, rfl, _⟩ := fillKind_record_ok h
    exact ⟨_, rfl, rfl⟩
  | anyOf members => exact absurd rfl (hu members)
  | map attributes =>
    obtain ⟨_, _, _, rfl, _⟩ := fillKind_attributes_ok rfl h
    exact ⟨_, rfl, rfl⟩
  | item attributes =>
    obtain ⟨_, _, _, rfl, _⟩ := fillKind_attributes_ok rfl h
    exact ⟨_, rfl, rfl⟩

theorem exists_value_of_some {props : Props} (hx : Repeats extension)
    (wf : (Schema.mk props kind).WellFormed) (hu : (Schema.mk props kind).Unionless)
    (h : fillNode (.mk props kind) extension settings scope (some v) = .ok filled) :
    ∃ w, filled.value? = some w := by
  cases hc : Extension.consult extension (.mk props kind) settings (some v) with
  | extended parser =>
    obtain ⟨value, hv, rfl⟩ := (fillNode_extended_ok_iff hc).mp h
    obtain ⟨w, rfl, _⟩ := hx.owned _ _ _ _ _ wf hu hc hv
    exact ⟨w, rfl⟩
  | unextended given =>
    cases hx.handed _ _ _ _ hc
    obtain ⟨hk, _⟩ := (fillNode_present_ok_iff hc rfl).mp h
    obtain ⟨w, hw, _⟩ := fillKind_value hu.root hk
    exact ⟨w, hw⟩

theorem fillKind_list_refill {elements : Schema} {scope' : Option LinkContext}
    (again : ∀ path item filled,
      fillNode elements extension (settings.at path) scope (some item) = .ok filled →
        ∃ w, filled.value? = some w ∧
          fillNode elements extension (settings.unfilled.at path) scope' (some w) = .ok filled)
    (h : fillKind (.list elements) transformer extension settings scope v = .ok filled) {w : Value}
    (hw : filled.value? = some w) :
    fillKind (.list elements) transformer extension settings.unfilled scope' w = .ok filled := by
  cases v with
  | list items =>
    simp only [fillKind] at h
    split at h
    · cases h
    · rename_i fs hf
      cases h
      cases hw
      have hagain : fillItems
          (fun place item => fillNode elements extension place scope' item) settings.unfilled 0
          (Filled.itemValues fs) = .ok fs := fillItems_refill again hf
      simp only [fillKind, hagain]
  | _ => simp [fillKind] at h

theorem fillKind_set_refill {elements : Schema} {scope' : Option LinkContext} {kind : ScalarKind}
    (hk : elements.kind = .scalar kind)
    (again : ∀ member filled, fillNode elements none settings scope (some member) = .ok filled →
      ∃ w, filled.value? = some w ∧
        fillNode elements none settings.unfilled scope' (some w) = .ok filled)
    (h : fillKind (.set elements) transformer extension settings scope v = .ok filled) {w : Value}
    (hw : filled.value? = some w) :
    fillKind (.set elements) transformer extension settings.unfilled scope' w = .ok filled := by
  cases v with
  | list members =>
    simp only [fillKind] at h
    split at h
    · cases h
    · rename_i hd
      split at h
      · cases h
      · rename_i fs hf
        cases h
        cases hw
        -- Members are scalars, which come out as they are, so they are as different again.
        have hsame : members = Filled.itemValues fs := by
          rw [← List.forall₂_eq_eq_eq]
          refine Filled.itemValues_of_forall₂ ((fillMembers_ok hf).imp fun member f hf => ?_)
          exact ⟨member, value_of_scalar hk hf, rfl⟩
        have hagain : fillMembers
            (fun member => fillNode elements none settings.unfilled scope' member)
            (Filled.itemValues fs) = .ok fs := fillMembers_refill again hf
        rw [← hsame] at hagain ⊢
        simp only [fillKind, if_neg hd, hagain]
  | _ => simp [fillKind] at h

theorem fillKind_record_refill {keys elements : Schema} {scope' : Option LinkContext}
    (hk : keys.kind = .scalar .string) (hkeys : keys.Refills)
    (again : ∀ path element filled,
      fillNode elements extension (settings.at path) scope (some element) = .ok filled →
        ∃ w, filled.value? = some w ∧
          fillNode elements extension (settings.unfilled.at path) scope' (some w) = .ok filled)
    (h : fillKind (.record keys elements) transformer extension settings scope v = .ok filled)
    {w : Value} (hw : filled.value? = some w) :
    fillKind (.record keys elements) transformer extension settings.unfilled scope' w =
      .ok filled := by
  cases v with
  | map input =>
    simp only [fillKind] at h
    split at h
    · cases h
    · rename_i fs hf
      cases h
      cases hw
      -- Keys are strings, which come out as they are.
      have hkey : ∀ path key checked,
          fillNode keys none (settings.at path) none (some (.string key)) = .ok checked →
            fillNode keys none (settings.unfilled.at path) none (some (.string key)) =
              .ok checked := by
        intro path key checked hchecked
        have hagain := hkeys none repeats_none _ none none _ _ hchecked
        rw [value_of_scalar hk hchecked] at hagain
        exact hagain
      have hagain : fillEntries (fun place key => fillNode keys none place none key)
          (fun place element => fillNode elements extension place scope' element)
          settings.unfilled (Filled.entryValues fs) = .ok fs := fillEntries_refill hkey again hf
      simp only [fillKind, hagain]
  | _ => simp [fillKind] at h

theorem fillKind_attributes_refill {attributes : List (String × Schema)}
    {scope' : Option LinkContext} (hk : kind.attributes? = some attributes)
    (hd : Entries.Distinct attributes)
    (again : ∀ entry ∈ attributes, ∀ path scope scope' raw filled,
      fillNode entry.2 extension (settings.at path) scope raw = .ok filled →
        fillNode entry.2 extension (settings.unfilled.at path) scope' filled.value? = .ok filled)
    (h : fillKind kind transformer extension settings scope v = .ok filled) {w : Value}
    (hw : filled.value? = some w) :
    fillKind kind transformer extension settings.unfilled scope' w = .ok filled := by
  rw [fillKind_attributes_eq hk] at h ⊢
  cases v with
  | map input =>
    have hchild : ∀ child ∈ attributes.map (childOf extension settings.mode),
        ∀ path context raw filled, child.fill (settings.at path) context raw = .ok filled →
          ∀ context',
            child.fill (settings.unfilled.at path) context' filled.value? = .ok filled := by
      intro child hc path context raw filled hf context'
      obtain ⟨entry, he, rfl⟩ := List.mem_map.mp hc
      exact again entry he path context context' raw filled hf
    obtain ⟨slots, rfl, hagain⟩ := fillAttributes_refill (by rwa [List.map_map]) hchild h
    cases hw
    exact hagain
  | _ => cases h

theorem fillKind_refill {props : Props} (hx : Repeats extension)
    (wf : (Schema.mk props kind).WellFormed) (hu : (Schema.mk props kind).Unionless)
    (each : ∀ schema ∈ kind.children, schema.Refills) {scope' : Option LinkContext}
    (h : fillKind kind transformer extension settings scope v = .ok filled) {w : Value}
    (hw : filled.value? = some w) :
    fillKind kind transformer extension settings.unfilled scope' w = .ok filled := by
  have fit := wf.root
  -- A child that is given a value yields one that it is filled with again.
  have child : ∀ schema ∈ kind.children, ∀ extension, Repeats extension →
      ∀ settings v filled, fillNode schema extension settings scope (some v) = .ok filled →
        ∃ w, filled.value? = some w ∧
          fillNode schema extension settings.unfilled scope' (some w) = .ok filled := by
    intro schema hm extension hx settings v filled h
    obtain ⟨props, kind⟩ := schema
    obtain ⟨w, hw⟩ := exists_value_of_some hx (wf.child hm) (hu.child hm) h
    have hagain := each _ hm extension hx settings scope scope' _ _ h
    rw [hw] at hagain
    exact ⟨w, hw, hagain⟩
  have named : ∀ attributes, kind.attributes? = some attributes → Entries.Distinct attributes →
      fillKind kind transformer extension settings.unfilled scope' w = .ok filled := by
    intro attributes hk hd
    refine fillKind_attributes_refill hk hd (fun entry he path => ?_) h hw
    exact each _ (Kind.mem_children hk he) extension hx (settings.at path)
  cases kind with
  | scalar kind =>
    obtain ⟨hm, rfl⟩ := fillKind_scalar_ok_iff.mp h
    cases hw
    exact fillKind_scalar_ok_iff.mpr ⟨hm, rfl⟩
  | set elements =>
    obtain ⟨_, scalar, hscalar⟩ : elements.IsElement ∧ ∃ kind, elements.kind = .scalar kind := fit
    refine fillKind_set_refill hscalar (fun member filled hf => ?_) h hw
    exact child elements List.mem_cons_self none repeats_none settings member filled hf
  | list elements =>
    refine fillKind_list_refill (fun path item filled hf => ?_) h hw
    exact child elements List.mem_cons_self extension hx (settings.at path) item filled hf
  | record keys elements =>
    obtain ⟨_, _, hkeys⟩ : keys.IsElement ∧ elements.IsElement ∧
      keys.kind = .scalar .string := fit
    refine fillKind_record_refill hkeys (each keys List.mem_cons_self)
      (fun path element filled hf => ?_) h hw
    exact child elements (by simp [Kind.children]) extension hx (settings.at path) element filled hf
  | anyOf members => exact absurd rfl (hu.root members)
  | map attributes => exact named attributes rfl fit.1
  | item attributes => exact named attributes rfl fit.1

end Kinds

theorem Schema.refills {schema : Schema} (wf : schema.WellFormed) (hu : schema.Unionless) :
    schema.Refills := by
  induction schema using Schema.induct with
  | node props kind ih =>
    intro extension hx settings scope scope' input filled h
    have each : ∀ schema ∈ kind.children, schema.Refills :=
      fun schema hm => ih schema hm (wf.child hm) (hu.child hm)
    -- The extension takes over again what it took over, and nothing of what it handed back.
    cases hc : Extension.consult extension (.mk props kind) settings input with
    | extended parser =>
      obtain ⟨value, hv, rfl⟩ := (fillNode_extended_ok_iff hc).mp h
      cases input with
      | none =>
        rw [hx.absent] at hc
        cases hc
      | some v =>
        obtain ⟨w, rfl, howned⟩ := hx.owned _ _ _ _ _ wf hu hc hv
        exact (fillNode_extended_ok_iff howned).mpr ⟨some w, hv, rfl⟩
    | unextended given =>
      cases hr : resolved props settings scope given with
      | none =>
        obtain ⟨hrequired, rfl⟩ := (fillNode_absent_ok_iff hc hr).mp h
        exact (fillNode_absent_ok_iff (hx.absent _ _) rfl).mpr ⟨hrequired, rfl⟩
      | some v =>
        obtain ⟨hk, hchecked⟩ := (fillNode_present_ok_iff hc hr).mp h
        obtain ⟨w, hw, hplain⟩ := fillKind_value hu.root hk
        rw [hw]
        refine (fillNode_present_ok_iff (hx.plain _ _ _ hplain) rfl).mpr ⟨?_, hchecked⟩
        exact fillKind_refill hx wf hu each hk hw

/-! ## Steps -/

theorem start_refill {schema : Schema} {extension : Option Extension} (hx : Repeats extension)
    (wf : schema.WellFormed) (hu : schema.Unionless) {settings : Settings} {input : Option Value}
    {filled : Filled} (h : fillNode schema extension settings none input = .ok filled) :
    start schema extension settings.unfilled filled.value? =
      start schema extension settings input := by
  have hagain := Schema.refills wf hu extension hx settings none none input filled h
  simp only [start, h, hagain]
  rfl

section Update

variable {schema : Schema} {settings : Settings} {tag : OpTag}

theorem startOperand_again (wf : schema.WellFormed) (hu : schema.Unionless) {operand : Value}
    {value : Option Value}
    (h : Update.step (Update.startOperand schema settings tag operand) = .ok value) :
    ∃ w, value = some w ∧ Update.startOperand schema settings.unfilled tag w =
      Update.startOperand schema settings tag operand := by
  obtain ⟨filled, hf, rfl⟩ := step_start_ok_iff.mp h
  obtain ⟨w, hw⟩ := (fillNode_present hf).exists_value
  have hagain := start_refill repeats_none wf hu hf
  rw [hw] at hagain
  exact ⟨w, hw, hagain⟩

theorem startOperands_again (wf : schema.WellFormed) (hu : schema.Unionless)
    {members values : List Value}
    (h : Update.stepAll (members.map (Update.startOperand schema settings tag)) = .ok values) :
    values.map (Update.startOperand schema settings.unfilled tag) =
      members.map (Update.startOperand schema settings tag) := by
  induction members generalizing values with
  | nil =>
    cases h
    rfl
  | cons member rest ih =>
    obtain ⟨value, others, hv, ho, rfl⟩ := Update.stepAll_cons_ok_iff.mp h
    obtain ⟨w, rfl, hw⟩ := startOperand_again wf hu hv
    rw [List.map_cons, ← ih ho, ← hw]
    rfl

/-- The operand of a set: a list of members yields a list of as many, a single member itself. -/
theorem setOperand_again (wf : schema.WellFormed) (hu : schema.Unionless) {kind : ScalarKind}
    (hk : schema.kind = .scalar kind) {operand : Value} {value : Option Value}
    (h : (Update.setOperand schema settings tag operand).step = .ok value) :
    ∃ w, value = some w ∧ Update.setOperand schema settings.unfilled tag w =
      Update.setOperand schema settings tag operand := by
  have single : Update.step (Update.startOperand schema settings tag operand) = .ok value →
      value = some operand := by
    intro h
    obtain ⟨filled, hf, rfl⟩ := step_start_ok_iff.mp h
    exact value_of_scalar hk hf
  cases operand with
  | list members =>
    simp only [Update.setOperand, Update.Operand.step] at h
    split at h
    · cases h
    · rename_i values hv
      cases h
      exact ⟨_, rfl, congrArg Update.Operand.many (startOperands_again wf hu hv)⟩
  | _ =>
    cases single h
    exact ⟨_, rfl, rfl⟩

theorem wrap_again {build : Value → Operation Value} {operand : Update.Operand}
    {held : Value → Update.Operand} {path : ValuePath} {value : Option Value}
    (again : ∀ value, operand.step = .ok value → ∃ w, value = some w ∧ held w = operand)
    (h : (Update.Action.wrap build operand).step path = .ok value) :
    ∃ w, value = some (.op (build w)) ∧ Update.Action.wrap build (held w) = .wrap build operand := by
  simp only [Update.Action.step] at h
  split at h
  · cases h
  · rename_i held hv
    cases h
    obtain ⟨w, rfl, hw⟩ := again held hv
    exact ⟨w, rfl, by rw [hw]⟩

end Update

/-- An operation that was carried out is recognised again, as the same action. -/
theorem action?_again {schema : Schema} (wf : schema.WellFormed) (hu : schema.Unionless)
    {settings : Settings} {operation : Operation Value} {action : Update.Action}
    {value : Option Value} (ha : Update.action? schema settings operation = some action)
    (h : action.step settings.path = .ok value) :
    ∃ other, value = some (.op other) ∧
      Update.action? schema settings.unfilled other = some action := by
  rcases action?_cases ha with ⟨tag, build, elements, operand, -, hk, rfl, hall⟩ |
    ⟨tag, build, operand, -, -, rfl, hall⟩ | rfl | ⟨source, fallback, rfl⟩
  · rw [hall] at ha
    cases ha
    obtain ⟨props, kind⟩ := schema
    cases (hk : kind = .set elements)
    obtain ⟨_, scalar, hscalar⟩ : elements.IsElement ∧ ∃ kind, elements.kind = .scalar kind :=
      wf.root
    obtain ⟨w, rfl, hw⟩ := wrap_again (fun _ hv => setOperand_again (wf.child List.mem_cons_self)
      (hu.child List.mem_cons_self) hscalar hv) h
    exact ⟨_, rfl, by rw [hall, hw]⟩
  · rw [hall] at ha
    cases ha
    have again : ∀ value,
        (Update.Operand.one (Update.startOperand schema settings tag operand)).step = .ok value →
          ∃ w, value = some w ∧ Update.Operand.one
            (Update.startOperand schema settings.unfilled tag w) =
              .one (Update.startOperand schema settings tag operand) := by
      intro value hv
      obtain ⟨w, rfl, hw⟩ := startOperand_again wf hu hv
      exact ⟨w, rfl, by rw [hw]⟩
    obtain ⟨w, rfl, hw⟩ := wrap_again again h
    exact ⟨_, rfl, by rw [hall, hw]⟩
  · cases ha
    simp only [Update.Action.step] at h
    split at h
    · cases h
    · cases h
      exact ⟨_, rfl, rfl⟩
  · cases ha
    simp only [Update.Action.step] at h
    split at h
    · cases h
    · cases fallback with
      | none =>
        cases h
        exact ⟨_, rfl, rfl⟩
      | some fallback =>
        simp only [Option.map_some] at h
        split at h
        · cases h
        · rename_i held hv
          cases h
          obtain ⟨w, rfl, hw⟩ := startOperand_again wf hu hv
          refine ⟨_, rfl, ?_⟩
          simp only [Update.action?, Option.map_some, hw]

/-- The extension of update mode takes an operation as it took the one it came from. -/
theorem repeats_update : Repeats (some Update.extension) where
  absent := conservative_update.absent
  plain schema settings v hp := by
    cases v with
    | op operation => cases hp
    | _ => rfl
  handed := conservative_update.handed
  owned schema settings v parser value wf hu h hv := by
    obtain ⟨operation, action, hop, ha, rfl⟩ := consult_extended h
    cases hop
    obtain ⟨other, rfl, hagain⟩ := action?_again wf hu ha ((step_new _ _ _).symm.trans hv)
    refine ⟨_, rfl, ?_⟩
    simp only [Extension.consult, Update.extension, Update.consult, hagain]
    rfl

/-- A filled value, parsed again without filling, is filled to itself, and the parse takes the same
steps as the one it came from: it stores the same value or fails with the same error. -/
theorem parse_filled_again {schema : Schema} {options : ParseOptions} {input f : Option Value}
    (hb : schema.Built) (hu : schema.Unionless)
    (hx : options.extension = none ∨ options.extension = some Update.extension)
    (h : schema.FillsTo options input f) :
    let again : ParseOptions := { options with fill := false }
    schema.FillsTo again f f ∧ (schema.start again f).trace = (schema.start options input).trace := by
  intro again
  have repeats : Repeats options.extension := by
    rcases hx with hx | hx
    · rw [hx]
      exact repeats_none
    · rw [hx]
      exact repeats_update
  obtain ⟨filled, hf, rfl⟩ := Schema.fillsTo_iff.mp h
  have hsame : schema.start again filled.value? = schema.start options input :=
    start_refill repeats hb.wellFormed hu hf
  refine ⟨?_, by rw [hsame]⟩
  rw [Schema.FillsTo, hsame]
  exact h

/-- An update that adds to a set of a map, in which a default is filled in. -/
theorem parse_filled_again_defaulted_map :
    let schema := Schema.ofKind (.map [("tags", .ofKind (.set (.scalar .string))),
      ("open", (Schema.scalar .boolean).defaultIn .update (.value (.bool true)))])
    let added := Value.op (.add (.list [.string "new"]))
    let input := some (Value.map [("tags", added)])
    let f := some (Value.map [("tags", added), ("open", .bool true)])
    let options := ParseOptions.ofMode .update
    let again : ParseOptions := { options with fill := false }
    schema.FillsTo again f f ∧ (schema.start again f).trace = (schema.start options input).trace := by
  intro schema added input f options
  have built : schema.Built := by
    refine .map (fun entry he => ?_) (rfl : Schema.map? [("tags", .ofKind (.set (.scalar .string))),
      ("open", (Schema.scalar .boolean).defaultIn .update (.value (.bool true)))] = _)
    rcases List.mem_cons.mp he with rfl | he
    · exact .set (.scalar .string) rfl
    · cases List.mem_singleton.mp he
      exact .withProps (.scalar .boolean) fun props =>
        { props with defaults := props.defaults.set .update (.value (.bool true)) }
  have scalar : ∀ kind, (Schema.scalar kind).Unionless := fun kind =>
    Schema.everywhere_iff.mpr ⟨nofun, nofun⟩
  have unionless : schema.Unionless := by
    refine Schema.everywhere_iff.mpr ⟨nofun, fun child hc => ?_⟩
    rcases List.mem_cons.mp hc with rfl | hc
    · refine Schema.everywhere_iff.mpr ⟨nofun, fun child hc => ?_⟩
      cases List.mem_singleton.mp hc
      exact scalar .string
    · cases List.mem_singleton.mp hc
      exact Schema.everywhere_iff.mpr ⟨nofun, nofun⟩
  have filled : schema.FillsTo options input f := ⟨_, rfl⟩
  exact parse_filled_again built unionless (.inr rfl) filled

end ItemShape
