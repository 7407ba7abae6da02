import ItemShape.Proofs.Parse.Gather
import ItemShape.Proofs.Parse.Operations
import ItemShape.Proofs.Parse.Protocol

/-!
# ItemShape.Proofs.Parse.KeyAttribute

Key attributes in every mode: a parse of an item yields a map that has each key attribute under its
stored name, and no removal there (`key_attribute_stored`). The one way around it is an update whose
whole input is a removal or a reference, which the item accepts like any other attribute.

* `Filled.Yields`: what the second step makes of a tree, wherever it succeeds.
* `Action.Bears`: a recognised operation keeps its tag in both steps.
* `fillNode_not_removed`: no removal comes out of a value that is none, by induction on the schema.
-/

namespace ItemShape

/-- Wherever the tree can be stored, a value is stored, and one that satisfies the condition. -/
def Filled.Yields (P : Value → Prop) (filled : Filled) : Prop :=
  ∀ path stored, filled.store path = .ok stored → ∃ w, stored = some w ∧ P w

theorem Filled.Yields.imp {P Q : Value → Prop} {filled : Filled} (h : filled.Yields P)
    (hpq : ∀ w, P w → Q w) : filled.Yields Q := by
  intro path stored hs
  obtain ⟨w, rfl, hw⟩ := h path stored hs
  exact ⟨w, rfl, hpq w hw⟩

theorem Filled.yields_compound {filled : Filled} (hp : filled.Present)
    (hs : ∀ transformer v, filled ≠ .scalar transformer v) :
    filled.Yields fun w => w.operation? = none := by
  intro path stored h
  cases filled with
  | absent => cases hp
  | extended _ _ => cases hp
  | scalar transformer v => exact absurd rfl (hs transformer v)
  | _ =>
    simp only [store] at h
    split at h
    · cases h
    · cases h
      exact ⟨_, rfl, rfl⟩

/-! ## Operations -/

/-- The value is an operation with this tag. -/
def Value.Bears (tag : OpTag) (v : Value) : Prop :=
  ∃ operation, v = .op operation ∧ operation.tag = tag

namespace Update

/-- A step of the action that succeeds yields an operation with this tag. -/
def Action.Bears (tag : OpTag) (action : Action) : Prop :=
  ∀ path value, action.step path = .ok value → ∃ w, value = some w ∧ w.Bears tag

variable {schema : Schema} {settings : Settings} {tag : OpTag} {operation : Operation Value}

theorem bears_wrap {build : Value → Operation Value} (hb : Carries tag build) (held : Operand) :
    (Action.wrap build held).Bears tag := by
  intro path value h
  simp only [Action.step] at h
  split at h
  · cases h
  · rename_i v hv
    cases h
    refine ⟨_, rfl, _, rfl, ?_⟩
    cases hb <;> rfl

theorem bears_remove (required : Bool) : (Action.remove required).Bears .remove := by
  intro path value h
  simp only [Action.step] at h
  split at h
  · cases h
  · cases h
    exact ⟨_, rfl, _, rfl, rfl⟩

theorem bears_get (source : String) (fallback : Option Parser) :
    (Action.get source fallback).Bears .get := by
  intro path value h
  simp only [Action.step] at h
  split at h
  · cases h
  · split at h
    · cases h
      exact ⟨_, rfl, _, rfl, rfl⟩
    · split at h
      · cases h
      · cases h
        exact ⟨_, rfl, _, rfl, rfl⟩

theorem action?_bears {action : Action} (h : action? schema settings operation = some action) :
    action.Bears operation.tag ∧ action.rest.Bears operation.tag := by
  rcases action?_cases h with ⟨tag, build, elements, operand, hb, hk, rfl, hall⟩ |
    ⟨tag, build, operand, hb, hi, rfl, hall⟩ | rfl | ⟨source, fallback, rfl⟩
  · rw [hall] at h
    cases h
    have htag : (build operand).tag = tag := by cases hb <;> rfl
    rw [htag]
    exact ⟨bears_wrap hb _, bears_wrap hb _⟩
  · rw [hall] at h
    cases h
    have htag : (build operand).tag = tag := by cases hb <;> rfl
    rw [htag]
    exact ⟨bears_wrap hb _, bears_wrap hb _⟩
  · cases h
    exact ⟨bears_remove _, bears_remove _⟩
  · cases h
    exact ⟨bears_get _ _, bears_get _ _⟩

theorem yields_extended {props : Props} {kind : Kind Schema} {scope : Option LinkContext}
    {input : Option Value} {parser : Parser} {filled : Filled}
    (hc : Extension.consult (some Update.extension) (.mk props kind) settings input =
      .extended parser)
    (h : fillNode (.mk props kind) (some Update.extension) settings scope input = .ok filled) :
    ∃ operation, input = some (.op operation) ∧
      action? (.mk props kind) settings operation ≠ none ∧
      (operation.tag = .remove → props.required.isRequired .update = false) ∧
        filled.Yields (Value.Bears operation.tag) := by
  obtain ⟨operation, action, rfl, ha, rfl⟩ := consult_extended hc
  obtain ⟨value, hv, rfl⟩ := (fillNode_extended_ok_iff hc).mp h
  obtain ⟨first, second⟩ := action?_bears ha
  have hv : action.step settings.path = .ok value := (step_new _ _ _).symm.trans hv
  refine ⟨operation, rfl, by simp [ha], fun hremove => ?_, fun path stored hs => ?_⟩
  · cases operation with
    | remove =>
      cases ha
      simp only [Action.step] at hv
      split at hv
      · cases hv
      · rename_i hr
        exact (Bool.not_eq_true _).mp hr
    | _ => cases hremove
  · simp only [Filled.store, Parser.new, Parser.next, hv] at hs
    cases ht : settings.transform with
    | false =>
      simp only [ht, Bool.false_eq_true, if_false] at hs
      cases hs
      exact first _ _ hv
    | true =>
      simp only [ht, if_true] at hs
      exact second _ _ hs

end Update

/-! ## Attributes that are never removed -/

/-- The node itself and, for a union, the nodes that its members offer the value to. -/
inductive Schema.Offers : Schema → Schema → Prop where
  | self {schema : Schema} : Offers schema schema
  | member {schema member node : Schema} {members : List Schema}
    (hk : schema.kind = .anyOf members) (hm : member ∈ members) (h : Offers member node) :
    Offers schema node

/-- No value of the kind is encoded as a removal, in any node that the value is offered to. -/
def Schema.EncodesNoRemoval (schema : Schema) : Prop :=
  ∀ node kind transformer, schema.Offers node → node.kind = .scalar kind →
    node.transformer? = some transformer → ∀ v, scalarMatches kind v = true →
      transformer.encode v ≠ .op .remove

/-- What stands in for an absent value of the mode is no removal. -/
def Schema.ResolvesNoRemoval (schema : Schema) (mode : Mode) : Prop :=
  (∀ default, schema.default? mode = some default → default.resolve ≠ .op .remove) ∧
    ∀ link, schema.link? mode = some link → ∀ context, link context ≠ some (.op .remove)

theorem Schema.ResolvesNoRemoval.ne {props : Props} {kind : Kind Schema} {settings : Settings}
    (h : (Schema.mk props kind).ResolvesNoRemoval settings.mode) {scope : Option LinkContext}
    {v : Value} (hr : resolved props settings scope none = some v) : v ≠ .op .remove := by
  rcases resolved_none_cases hr with ⟨link, context, hl, -, hv⟩ | ⟨default, hd, rfl⟩
  · rintro rfl
    exact h.2 link hl context hv
  · exact h.1 default hd

section Removal

variable {extension : Option Extension} {settings : Settings} {scope : Option LinkContext}
  {filled : Filled}

theorem fillKind_not_removed {props : Props} {kind : Kind Schema} {v : Value}
    (encodes : (Schema.mk props kind).EncodesNoRemoval)
    (member : ∀ members, kind = .anyOf members → ∀ member ∈ members,
      fillNode member extension settings scope (some v) = .ok filled →
        filled.Yields (· ≠ .op .remove))
    (h : fillKind kind props.transformer extension settings scope v = .ok filled) :
    filled.Yields (· ≠ .op .remove) := by
  -- Lists and maps are no removals, so only scalars and unions have something to show.
  have compound : filled.Present → (∀ transformer v, filled ≠ .scalar transformer v) →
      filled.Yields (· ≠ .op .remove) := by
    intro hp hs
    refine (Filled.yields_compound hp hs).imp fun w hw => ?_
    rintro rfl
    cases hw
  cases kind with
  | scalar kind =>
    obtain ⟨hm, rfl⟩ := fillKind_scalar_ok_iff.mp h
    intro path stored hs
    cases hs
    refine ⟨_, rfl, ?_⟩
    cases ht : props.transformer with
    | some transformer => exact encodes _ kind transformer .self rfl ht v hm
    | none =>
      intro hv
      cases (hv : v = .op .remove)
      cases kind <;> cases hm
  | anyOf members =>
    obtain ⟨other, hm, hf⟩ := fillFirst_eq_some (fillKind_anyOf_ok_iff.mp h)
    exact member members rfl other hm hf
  | set elements =>
    obtain ⟨_, _, _, rfl, _⟩ := fillKind_set_ok h
    exact compound trivial (by simp)
  | list elements =>
    obtain ⟨_, _, _, rfl, _⟩ := fillKind_list_ok h
    exact compound trivial (by simp)
  | record keys elements =>
    obtain ⟨_, _, _, rfl, _⟩ := fillKind_record_ok h
    exact compound trivial (by simp)
  | map attributes =>
    obtain ⟨_, _, _, rfl, _⟩ := fillKind_attributes_ok rfl h
    exact compound trivial (by simp)
  | item attributes =>
    obtain ⟨_, _, _, rfl, _⟩ := fillKind_attributes_ok rfl h
    exact compound trivial (by simp)

theorem Schema.EncodesNoRemoval.member {schema member : Schema} {members : List Schema}
    (h : schema.EncodesNoRemoval) (hk : schema.kind = .anyOf members) (hm : member ∈ members) :
    member.EncodesNoRemoval :=
  fun node kind transformer ho => h node kind transformer (.member hk hm ho)

/-- With the extension of any mode, no removal comes out of a value that is none. -/
theorem fillNode_not_removed {mode : Mode} {schema : Schema} {v : Value}
    (encodes : schema.EncodesNoRemoval) (hv : v ≠ .op .remove)
    (h : fillNode schema mode.extension? settings scope (some v) = .ok filled) :
    filled.Yields (· ≠ .op .remove) := by
  induction schema using Schema.induct generalizing filled with
  | node props kind ih =>
    cases hc : Extension.consult mode.extension? (.mk props kind) settings (some v) with
    | extended parser =>
      cases mode with
      | update =>
        obtain ⟨operation, hop, -, -, hyields⟩ := Update.yields_extended hc h
        cases hop
        refine hyields.imp fun w hw => ?_
        obtain ⟨other, rfl, htag⟩ := hw
        rintro hremoved
        cases hremoved
        cases operation with
        | remove => exact hv rfl
        | _ => cases htag
      | key => cases hc
      | put => cases hc
    | unextended given =>
      have hgiven : given = some v := by
        cases mode with
        | update => exact (consult_unextended hc).1
        | key => cases hc; rfl
        | put => cases hc; rfl
      subst hgiven
      obtain ⟨hk, -⟩ := (fillNode_present_ok_iff hc rfl).mp h
      refine fillKind_not_removed encodes (fun members hkind member hm hf => ?_) hk
      subst hkind
      exact ih member hm (encodes.member rfl hm) hf

theorem fillNode_key {mode : Mode} {schema : Schema} {input : Option Value}
    (required : schema.props.required = .always) (encodes : schema.EncodesNoRemoval)
    (resolves : mode = .update → (∃ members, schema.kind = .anyOf members) →
      schema.ResolvesNoRemoval mode) (hmode : settings.mode = mode)
    (h : fillNode schema mode.extension? settings scope input = .ok filled) :
    filled.Yields (· ≠ .op .remove) := by
  obtain ⟨props, kind⟩ := schema
  have required : props.required = .always := required
  cases hc : Extension.consult mode.extension? (.mk props kind) settings input with
  | extended parser =>
    cases mode with
    | update =>
      obtain ⟨operation, -, -, hremove, hyields⟩ := Update.yields_extended hc h
      refine hyields.imp fun w hw => ?_
      rintro rfl
      obtain ⟨other, hop, htag⟩ := hw
      cases hop
      have optional := hremove htag.symm
      rw [required] at optional
      cases optional
    | key => cases hc
    | put => cases hc
  | unextended given =>
    cases hr : resolved props settings scope given with
    | none =>
      obtain ⟨optional, -⟩ := (fillNode_absent_ok_iff hc hr).mp h
      rw [required] at optional
      cases optional
    | some v =>
      obtain ⟨hk, -⟩ := (fillNode_present_ok_iff hc hr).mp h
      refine fillKind_not_removed encodes (fun members hkind member hm hf => ?_) hk
      subst hkind
      refine fillNode_not_removed (encodes.member rfl hm) ?_ hf
      rintro rfl
      cases mode with
      | update =>
        obtain ⟨rfl, unknown⟩ := consult_unextended hc
        cases given with
        | none =>
          have resolves := resolves rfl ⟨members, rfl⟩
          rw [← hmode] at resolves
          exact resolves.ne hr rfl
        | some v =>
          cases hr
          cases unknown .remove rfl
      | key => exact fillNode_operation _ _ hf
      | put => exact fillNode_operation _ _ hf

end Removal

/-! ## Items -/

/-- A map that has a value under this name, and not a removal. -/
def Value.Holds (name : String) (v : Value) : Prop :=
  ∃ entries w, v = .map entries ∧ Entries.get? name entries = some w ∧ w ≠ .op .remove

theorem parse_eq_ok {schema : Schema} {options : ParseOptions} {input : Option Value}
    {t : Option Value} (ht : options.transform = true) (h : schema.parse options input = .ok t) :
    ∃ filled, fillNode schema options.extension options.toSettings none input = .ok filled ∧
      filled.store options.path = .ok t := by
  obtain ⟨filled, hf, hs⟩ := parse_ok_iff.mp h
  rw [ht] at hs
  exact ⟨filled, hf, hs⟩

theorem holds_stored_key {props : Props} {attributes : List (String × Schema)}
    {extension : Option Extension} {settings : Settings} {scope : Option LinkContext} {v t : Value}
    {filled : Filled} {name : String} {child : Schema} (hm : (name, child) ∈ attributes)
    (key : child.isKey = true)
    (yields : ∀ path scope input content,
      fillNode child extension (settings.at path) scope input = .ok content →
        content.Yields (· ≠ .op .remove))
    (h : fillKind (.item attributes) props.transformer extension settings scope v = .ok filled)
    {path : ValuePath} (hs : filled.store path = .ok (some t)) :
    t.Holds (child.storedName name) := by
  obtain ⟨input, slots, rfl, rfl, -, hslots⟩ := fillKind_attributes_ok rfl h
  have parsed : (name, child) ∈ Kind.parsed (.item attributes) settings.mode attributes :=
    List.mem_filter.mpr ⟨hm, by simp [key]⟩
  obtain ⟨slot, hslot, hof⟩ := exists_of_forall₂_left hslots (name, child) parsed
  obtain ⟨place, context, hf⟩ := hof.content
  simp only [Filled.store] at hs
  split at hs
  · cases hs
  · rename_i entries he
    cases hs
    obtain ⟨distinct, each⟩ := Filled.storeSlots_ok he
    obtain ⟨stored, hstored, hmem⟩ := each slot hslot
    obtain ⟨w, rfl, hw⟩ := yields _ _ _ _ hf _ _ hstored
    have hentry := hmem w rfl
    rw [hof.stored] at hentry
    exact ⟨entries, w, rfl, Entries.get?_of_mem distinct hentry, hw⟩

/-- In every mode a parse of an item yields a map that holds each of its key attributes, under the
stored name and not as a removal; but in an update the input may also be a removal or a reference
as a whole, which is yielded as such. Of the attribute itself it is assumed that its encodings
are no removals, and of a union also that no removal stands in for an absent value in an update. -/
theorem key_attribute_stored {item child : Schema} {mode : Mode}
    {attributes : List (String × Schema)} {name : String} (hk : item.kind = .item attributes)
    (hm : (name, child) ∈ attributes) (key : child.isKey = true)
    (required : child.props.required = .always) (encodes : child.EncodesNoRemoval)
    (resolves : mode = .update → (∃ members, child.kind = .anyOf members) →
      child.ResolvesNoRemoval mode)
    {input : Option Value} {t : Value} (h : item.parse (.ofMode mode) input = .ok (some t)) :
    t.Holds (child.storedName name) ∨
      mode = .update ∧ ∃ operation stored, input = some (.op operation) ∧
        (operation.tag = .remove ∨ operation.tag = .get) ∧ t = .op stored ∧
          stored.tag = operation.tag := by
  obtain ⟨props, kind⟩ := item
  cases (hk : kind = .item attributes)
  let settings := (ParseOptions.ofMode mode).toSettings
  obtain ⟨filled, hf, hs⟩ := parse_eq_ok rfl h
  have hf : fillNode (.mk props (.item attributes)) mode.extension? settings none input =
      .ok filled := hf
  cases hc : Extension.consult mode.extension? (.mk props (.item attributes)) settings input with
  | unextended given =>
    refine .inl ?_
    cases hr : resolved props settings none given with
    | none =>
      obtain ⟨-, rfl⟩ := (fillNode_absent_ok_iff hc hr).mp hf
      cases hs
    | some v =>
      obtain ⟨hkind, -⟩ := (fillNode_present_ok_iff hc hr).mp hf
      exact holds_stored_key hm key
        (fun _ _ _ _ hf => fillNode_key required encodes resolves rfl hf) hkind hs
  | extended parser =>
    cases mode with
    | update =>
      obtain ⟨operation, rfl, known, -, hyields⟩ := Update.yields_extended hc hf
      obtain ⟨w, ht, stored, rfl, htag⟩ := hyields _ _ hs
      cases ht
      refine .inr ⟨rfl, operation, stored, rfl, ?_, rfl, htag⟩
      obtain ⟨action, ha⟩ := Option.ne_none_iff_exists'.mp known
      rcases action?_cases ha with ⟨_, _, _, _, _, hset, _⟩ | ⟨_, _, _, _, hitem, _⟩ | rfl |
        ⟨source, fallback, rfl⟩
      · cases hset
      · cases hitem
      · exact .inl rfl
      · exact .inr rfl
    | key => cases hc
    | put => cases hc

/-- An update that gives the key of an item, and adds to a set beside it. -/
theorem key_attribute_stored_renamed_key :
    let key := ((Schema.scalar .string).savedAs "pk").makeKey
    let attributes := [("id", key), ("tags", .ofKind (.set (.scalar .string)))]
    let item := Schema.ofKind (.item attributes)
    let added := Value.op (.add (.string "new"))
    item.parse (.ofMode .update) (some (.map [("id", .string "u"), ("tags", added)])) =
        .ok (some (.map [("pk", .string "u"), ("tags", added)])) ∧
      key.EncodesNoRemoval ∧
        (Value.map [("pk", .string "u"), ("tags", added)]).Holds "pk" := by
  intro key attributes item added
  have parsed : item.parse (.ofMode .update)
      (some (.map [("id", .string "u"), ("tags", added)])) =
        .ok (some (.map [("pk", .string "u"), ("tags", added)])) := rfl
  have encodes : key.EncodesNoRemoval := by
    intro node kind transformer ho hk ht
    cases ho with
    | self => cases ht
    | member hunion => cases hunion
  have resolves : Mode.update = .update → (∃ members, key.kind = .anyOf members) →
      key.ResolvesNoRemoval .update := by
    rintro - ⟨members, hunion⟩
    cases hunion
  refine ⟨parsed, encodes, ?_⟩
  rcases key_attribute_stored (rfl : item.kind = .item attributes) List.mem_cons_self rfl rfl
    encodes resolves parsed with stored | ⟨-, operation, stored, hinput, -⟩
  · exact stored
  · cases hinput

/-- Where no key is stored: an update removes the whole item or refers to it, a removal stands in
for an absent union in an update, or a removal is what the key is encoded as. -/
theorem key_attribute_not_stored :
    let key := (Schema.scalar .string).makeKey
    let union := (Schema.ofKind (.anyOf [.scalar .string])).makeKey
    let defaulted := union.defaultIn .update (.value (.op .remove))
    let encoded := key.transform (.custom "removed" (fun _ => .op .remove) id)
    let item (schema : Schema) := Schema.ofKind (.item [("id", schema)])
    let reference := Value.op (.get "other" none)
    let removed := Value.map [("id", .op .remove)]
    Schema.item? [("id", key)] = .ok (item key) ∧
      (item key).parse (.ofMode .update) (some (.op .remove)) = .ok (some (.op .remove)) ∧
      ¬ (Value.op .remove).Holds "id" ∧
      (item key).parse (.ofMode .update) (some reference) = .ok (some reference) ∧
      ¬ reference.Holds "id" ∧
      (item defaulted).parse (.ofMode .update) (some (.map [])) = .ok (some removed) ∧
      (item encoded).parse (.ofMode .put) (some (.map [("id", .string "u")])) =
        .ok (some removed) ∧
      ¬ removed.Holds "id" := by
  intro key union defaulted encoded item reference removed
  have operation : ∀ operation, ¬ (Value.op operation).Holds "id" := by
    rintro operation ⟨_, _, hmap, -⟩
    cases hmap
  have hremoved : ¬ removed.Holds "id" := by
    rintro ⟨entries, w, hmap, hget, hw⟩
    have hentries : [("id", Value.op .remove)] = entries := Value.map.inj hmap
    subst hentries
    cases (hget : some (.op .remove) = some w)
    exact hw rfl
  exact ⟨rfl, rfl, operation _, rfl, operation _, rfl, rfl, hremoved⟩

end ItemShape
