import ItemShape.Proofs.Parse.Agree
import ItemShape.Proofs.Parse.KeyAttribute

/-!
# ItemShape.Proofs.Parse.OperationFree

Operations outside update mode. A parse yields none, at any depth, unless one is let through
(`operation_free_of_parse`): an `any` takes lists and maps as they are, with all that is in them,
and in key mode the attributes outside the key are not checked, although links see them.

* `Value.HasOperation`, `Schema.LetsThrough`: where operations stand, and where a schema does not
  look for them.
* `Filled.OperationFree`: a tree that yields no operation in either step; it is enough that its
  children yield none.
* `fillNode_operationFree`: what is filled from a value of which nothing is let through, by
  induction on the schema.
-/

namespace ItemShape

/-! ## Values -/

/-- The value is an operation, or one stands somewhere in it. -/
inductive Value.HasOperation : Value → Prop where
  | here (operation : Operation Value) : HasOperation (.op operation)
  | item {items : List Value} {v : Value} (hm : v ∈ items) (h : HasOperation v) :
    HasOperation (.list items)
  | entry {entries : List (String × Value)} {name : String} {v : Value}
    (hm : (name, v) ∈ entries) (h : HasOperation v) : HasOperation (.map entries)

/-- No operation at any depth. -/
def Value.OperationFree (v : Value) : Prop :=
  ¬ v.HasOperation

namespace Value

theorem operationFree_list {items : List Value} (h : ∀ v ∈ items, v.OperationFree) :
    (Value.list items).OperationFree := by
  intro hop
  cases hop with
  | item hm hop => exact h _ hm hop

theorem operationFree_map {entries : List (String × Value)}
    (h : ∀ entry ∈ entries, entry.2.OperationFree) : (Value.map entries).OperationFree := by
  intro hop
  cases hop with
  | entry hm hop => exact h _ hm hop

/-- A scalar of a kind other than `any` has no operation in it, as nothing is in it. -/
theorem operationFree_of_scalarMatches {kind : ScalarKind} {v : Value} (hk : kind ≠ .any)
    (hm : scalarMatches kind v = true) : v.OperationFree := by
  intro hop
  cases hop <;> cases kind <;> first | exact hk rfl | cases hm

end Value

/-- No operation stands in what a link can see. -/
structure LinkContext.OperationFree (context : LinkContext) : Prop where
  siblings : ∀ entry ∈ context.siblings, entry.2.OperationFree
  ancestors : ∀ members ∈ context.ancestors, ∀ entry ∈ members, entry.2.OperationFree

theorem LinkContext.operationFree_nested {scope : Option LinkContext}
    (hs : ∀ context, scope = some context → context.OperationFree)
    {siblings : List (String × Value)} (h : ∀ entry ∈ siblings, entry.2.OperationFree) :
    (nested scope siblings).OperationFree := by
  cases scope with
  | none => exact ⟨h, List.forall_mem_nil _⟩
  | some parent =>
    obtain ⟨above, further⟩ := hs parent rfl
    exact ⟨h, List.forall_mem_cons.mpr ⟨above, further⟩⟩

/-! ## Schemas -/

/-- The defaults, links and transformers of the node add no operation to what they are given. -/
structure Schema.AddsNoOperation (mode : Mode) (schema : Schema) : Prop where
  defaulted : ∀ default, schema.default? mode = some default → default.resolve.OperationFree
  linked : ∀ link, schema.link? mode = some link → ∀ context, context.OperationFree →
    ∀ v, link context = some v → v.OperationFree
  encoded : ∀ transformer, schema.transformer? = some transformer →
    ∀ v, v.OperationFree → (transformer.encode v).OperationFree

theorem Schema.addsNoOperation_ofKind (mode : Mode) (kind : Kind Schema) :
    (ofKind kind).AddsNoOperation mode where
  defaulted _ h := by cases mode <;> cases h
  linked _ h := by cases mode <;> cases h
  encoded _ h := by cases h

theorem Schema.addsNoOperation_scalar (mode : Mode) (kind : ScalarKind) :
    (scalar kind).Everywhere (AddsNoOperation mode) :=
  everywhere_iff.mpr ⟨addsNoOperation_ofKind mode _, List.forall_mem_nil _⟩

/-- The value has an operation in it where the schema does not look for one: inside a list or map
that an `any` takes, or in an attribute that key mode skips. -/
inductive Schema.LetsThrough (mode : Mode) : Schema → Value → Prop where
  | any {schema : Schema} {v : Value} (hk : schema.kind = .scalar .any)
    (hm : scalarMatches .any v = true) (h : v.HasOperation) : LetsThrough mode schema v
  | skipped {schema child : Schema} {attributes : List (String × Schema)}
    {entries : List (String × Value)} {name : String} {v : Value}
    (hk : schema.kind = .item attributes) (hmode : mode = .key) (ha : (name, child) ∈ attributes)
    (key : child.isKey = false) (hm : (name, v) ∈ entries) (h : v.HasOperation) :
    LetsThrough mode schema (.map entries)
  | list {schema elements : Schema} {items : List Value} {v : Value}
    (hk : schema.kind = .list elements) (hm : v ∈ items) (h : LetsThrough mode elements v) :
    LetsThrough mode schema (.list items)
  | set {schema elements : Schema} {members : List Value} {v : Value}
    (hk : schema.kind = .set elements) (hm : v ∈ members) (h : LetsThrough mode elements v) :
    LetsThrough mode schema (.list members)
  | record {schema keys elements : Schema} {entries : List (String × Value)} {name : String}
    {v : Value} (hk : schema.kind = .record keys elements) (hm : (name, v) ∈ entries)
    (h : LetsThrough mode elements v) : LetsThrough mode schema (.map entries)
  | attributes {schema child : Schema} {attributes : List (String × Schema)}
    {entries : List (String × Value)} {name : String} {v : Value}
    (hk : schema.kind.attributes? = some attributes)
    (ha : (name, child) ∈ schema.kind.parsed mode attributes) (hm : (name, v) ∈ entries)
    (h : LetsThrough mode child v) : LetsThrough mode schema (.map entries)
  | anyOf {schema member : Schema} {members : List Schema} {v : Value}
    (hk : schema.kind = .anyOf members) (hm : member ∈ members) (h : LetsThrough mode member v) :
    LetsThrough mode schema v

theorem Schema.LetsThrough.hasOperation {mode : Mode} {schema : Schema} {v : Value}
    (h : schema.LetsThrough mode v) : v.HasOperation := by
  induction h with
  | any _ _ h => exact h
  | skipped _ _ _ _ hm h => exact .entry hm h
  | list _ hm _ ih => exact .item hm ih
  | set _ hm _ ih => exact .item hm ih
  | record _ hm _ ih => exact .entry hm ih
  | attributes _ _ hm _ ih => exact .entry hm ih
  | anyOf _ _ _ ih => exact ih

/-! ## Trees -/

/-- Neither step yields an operation, at any depth. -/
structure Filled.OperationFree (filled : Filled) : Prop where
  value : ∀ v, filled.value? = some v → v.OperationFree
  store : ∀ path t, filled.store path = .ok (some t) → t.OperationFree

namespace Filled

theorem operationFree_absent : OperationFree .absent where
  value _ h := by cases h
  store _ _ h := by cases h

theorem operationFree_scalar {transformer : Option Transformer} {v : Value}
    (hv : v.OperationFree)
    (encoded : ∀ other, transformer = some other → (other.encode v).OperationFree) :
    OperationFree (.scalar transformer v) where
  value _ h := by
    cases h
    exact hv
  store _ _ h := by
    cases h
    cases transformer with
    | none => exact hv
    | some other => exact encoded other rfl

theorem operationFree_list {items : List Filled} (each : ∀ f ∈ items, f.OperationFree) :
    OperationFree (.list items) where
  value _ h := by
    cases h
    refine Value.operationFree_list fun v hm => ?_
    obtain ⟨f, hf, hv⟩ := mem_itemValues.mp hm
    exact (each f hf).value v hv
  store path _ h := by
    simp only [Filled.store] at h
    split at h
    · cases h
    · rename_i values hs
      cases h
      refine Value.operationFree_list fun t hm => ?_
      obtain ⟨f, hf, place, ht⟩ := exists_item_of_mem_stored hs hm
      exact (each f hf).store place t ht

theorem operationFree_set {members : List Filled} (each : ∀ f ∈ members, f.OperationFree) :
    OperationFree (.set members) where
  value _ h := by
    cases h
    refine Value.operationFree_list fun v hm => ?_
    obtain ⟨f, hf, hv⟩ := mem_itemValues.mp hm
    exact (each f hf).value v hv
  store path _ h := by
    simp only [Filled.store] at h
    split at h
    · cases h
    · rename_i values hs
      cases h
      refine Value.operationFree_list fun t hm => ?_
      obtain ⟨f, hf, ht⟩ := exists_member_of_mem_stored hs hm
      exact (each f hf).store path t ht

theorem operationFree_map {slots : List (Slot Filled)}
    (each : ∀ slot ∈ slots, slot.content.OperationFree) : OperationFree (.map slots) where
  value _ h := by
    cases h
    refine Value.operationFree_map fun entry hm => ?_
    obtain ⟨slot, hs, -, hv⟩ := exists_slot_of_mem hm
    exact (each slot hs).value entry.2 hv
  store path _ h := by
    simp only [Filled.store] at h
    split at h
    · cases h
    · rename_i entries hs
      cases h
      refine Value.operationFree_map fun entry hm => ?_
      obtain ⟨slot, hslot, ht⟩ := exists_slot_of_mem_stored hs hm
      exact (each slot hslot).store _ entry.2 ht

theorem operationFree_record {keys : Option Transformer} {entries : List (String × Filled)}
    (each : ∀ f ∈ entries, f.2.OperationFree) : OperationFree (.record keys entries) where
  value _ h := by
    cases h
    refine Value.operationFree_map fun entry hm => ?_
    obtain ⟨f, hf, -, hv⟩ := mem_entryValues.mp hm
    exact (each f hf).value entry.2 hv
  store path _ h := by
    simp only [Filled.store] at h
    split at h
    · cases h
    · rename_i stored hs
      cases h
      refine Value.operationFree_map fun entry hm => ?_
      obtain ⟨f, hf, ht⟩ := exists_entry_of_mem_stored hs hm
      exact (each f hf).store _ entry.2 ht

end Filled

/-! ## Filling -/

/-- What is filled from the schema yields no operation, if nothing is let through of the input and
links see none. -/
def Schema.FillsOperationFree (mode : Mode) (schema : Schema) : Prop :=
  ∀ settings scope input filled, settings.mode = mode →
    (∀ context, scope = some context → context.OperationFree) →
    (∀ v, input = some v → ¬ schema.LetsThrough mode v) →
    fillNode schema none settings scope input = .ok filled → filled.OperationFree

section Kinds

variable {props : Props} {kind : Kind Schema} {settings : Settings} {scope : Option LinkContext}
  {v : Value} {filled : Filled}

/-- Only key mode skips attributes, those of an item outside the key. -/
theorem Kind.item_of_keyOnly {attributes : List (String × Schema)} {mode : Mode}
    (hk : kind.attributes? = some attributes) (h : kind.keyOnly mode = true) :
    kind = .item attributes ∧ mode = .key := by
  obtain ⟨hname, hmode⟩ := Kind.keyOnly_eq_true_iff.mp h
  cases kind with
  | item _ =>
    cases hk
    exact ⟨rfl, hmode⟩
  | _ => cases hname

theorem fillKind_attributes_operationFree {attributes : List (String × Schema)}
    (hk : kind.attributes? = some attributes)
    (each : ∀ schema ∈ kind.children, schema.FillsOperationFree settings.mode)
    (hs : ∀ context, scope = some context → context.OperationFree)
    (hv : ¬ (Schema.mk props kind).LetsThrough settings.mode v)
    (h : fillKind kind props.transformer none settings scope v = .ok filled) :
    filled.OperationFree := by
  rw [fillKind_attributes_eq hk] at h
  cases v with
  | map input =>
    have free : ∃ slots, filled = .map slots ∧ ∀ slot ∈ slots, slot.content.OperationFree := by
      refine fillAttributes_forall (fun f v hf => hf.value v) ?skipped ?each h
      case skipped =>
        intro child hc hskip w hraw hop
        obtain ⟨⟨name, schema⟩, he, rfl⟩ := List.mem_map.mp hc
        simp only [Child.isParsed, childOf, Bool.or_eq_false_iff, Bool.not_eq_false'] at hskip
        obtain ⟨hitem, hmode⟩ := Kind.item_of_keyOnly hk hskip.1
        exact hv (.skipped hitem hmode he hskip.2 (Entries.mem_of_get? hraw) hop)
      case each =>
        intro child hc hparsed siblings hfree f hf
        obtain ⟨⟨name, schema⟩, he, rfl⟩ := List.mem_map.mp hc
        have seen : ∀ context, some (LinkContext.nested scope siblings) = some context →
            context.OperationFree := by
          rintro _ ⟨⟩
          exact LinkContext.operationFree_nested hs hfree
        refine each schema (Kind.mem_children hk he) (settings.at (settings.path.member name)) _ _ f
          rfl seen (fun w hraw hthrough => ?_) hf
        have parsed : (name, schema) ∈ kind.parsed settings.mode attributes :=
          List.mem_filter.mpr ⟨he, hparsed⟩
        exact hv (.attributes hk parsed (Entries.mem_of_get? hraw) hthrough)
    obtain ⟨slots, rfl, hslots⟩ := free
    exact Filled.operationFree_map hslots
  | _ => cases h

theorem fillKind_operationFree (adds : (Schema.mk props kind).AddsNoOperation settings.mode)
    (each : ∀ schema ∈ kind.children, schema.FillsOperationFree settings.mode)
    (hs : ∀ context, scope = some context → context.OperationFree)
    (hv : ¬ (Schema.mk props kind).LetsThrough settings.mode v)
    (h : fillKind kind props.transformer none settings scope v = .ok filled) :
    filled.OperationFree := by
  cases kind with
  | scalar kind =>
    obtain ⟨hm, rfl⟩ := fillKind_scalar_ok_iff.mp h
    have hfree : v.OperationFree := by
      by_cases hk : kind = .any
      · subst hk
        exact fun hop => hv (.any rfl hm hop)
      · exact Value.operationFree_of_scalarMatches hk hm
    exact Filled.operationFree_scalar hfree fun other ht => adds.encoded other ht v hfree
  | list elements =>
    obtain ⟨items, fs, rfl, rfl, hfs⟩ := fillKind_list_ok h
    refine Filled.operationFree_list fun f hf => ?_
    obtain ⟨item, hm, path, hf⟩ := exists_of_forall₂_right hfs f hf
    refine each elements List.mem_cons_self (settings.at path) _ _ f rfl hs
      (fun w hw hthrough => hv ?_) hf
    cases hw
    exact .list rfl hm hthrough
  | set elements =>
    obtain ⟨members, fs, rfl, rfl, -, hfs⟩ := fillKind_set_ok h
    refine Filled.operationFree_set fun f hf => ?_
    obtain ⟨member, hm, hf⟩ := exists_of_forall₂_right hfs f hf
    refine each elements List.mem_cons_self _ _ _ f rfl hs (fun w hw hthrough => hv ?_) hf
    cases hw
    exact .set rfl hm hthrough
  | record keys elements =>
    obtain ⟨entries, fs, rfl, rfl, hfs⟩ := fillKind_record_ok h
    refine Filled.operationFree_record fun f hf => ?_
    obtain ⟨entry, hm, -, -, path, hf⟩ := exists_of_forall₂_right hfs f hf
    have element : elements ∈ Kind.children (.record keys elements) := by simp [Kind.children]
    refine each elements element (settings.at path) _ _ f.2 rfl hs
      (fun w hw hthrough => hv ?_) hf
    cases hw
    exact .record rfl hm hthrough
  | anyOf members =>
    obtain ⟨member, hm, hf⟩ := fillFirst_eq_some (fillKind_anyOf_ok_iff.mp h)
    refine each member hm _ _ _ filled rfl hs (fun w hw hthrough => hv ?_) hf
    cases hw
    exact .anyOf rfl hm hthrough
  | map attributes => exact fillKind_attributes_operationFree rfl each hs hv h
  | item attributes => exact fillKind_attributes_operationFree rfl each hs hv h

end Kinds

/-- By induction on the schema. What stands in for an absent value has no operation in it, so
nothing is let through of it. -/
theorem fillNode_operationFree {mode : Mode} {schema : Schema}
    (adds : schema.Everywhere (Schema.AddsNoOperation mode)) : schema.FillsOperationFree mode := by
  induction schema using Schema.induct with
  | node props kind ih =>
    intro settings scope input filled hmode hs hv h
    subst hmode
    have each : ∀ schema ∈ kind.children, schema.FillsOperationFree settings.mode :=
      fun schema hm => ih schema hm (adds.child hm)
    cases hr : resolved props settings scope input with
    | none =>
      obtain ⟨-, rfl⟩ := (fillNode_absent_ok_iff rfl hr).mp h
      exact Filled.operationFree_absent
    | some v =>
      obtain ⟨hk, -⟩ := (fillNode_present_ok_iff rfl hr).mp h
      refine fillKind_operationFree adds.root each hs (fun hthrough => ?_) hk
      cases input with
      | some w =>
        cases hr
        exact hv v rfl hthrough
      | none =>
        refine absurd hthrough.hasOperation ?_
        rcases resolved_none_cases hr with ⟨link, context, hl, hscope, hlinked⟩ |
          ⟨default, hd, rfl⟩
        · exact adds.root.linked link hl context (hs context hscope) v hlinked
        · exact adds.root.defaulted default hd

/-- Outside update mode a parse yields no operation at any depth, if none is let through where the
schema does not look for one, and none is added. -/
theorem operation_free_of_parse {schema : Schema} {mode : Mode} (hmode : mode ≠ .update)
    (adds : schema.Everywhere (Schema.AddsNoOperation mode)) {input : Option Value}
    (hv : ∀ v, input = some v → ¬ schema.LetsThrough mode v) {t : Value}
    (h : schema.parse (.ofMode mode) input = .ok (some t)) : t.OperationFree := by
  obtain ⟨filled, hf, hs⟩ := parse_eq_ok rfl h
  have hx : (ParseOptions.ofMode mode).extension = none := by
    cases mode with
    | update => exact absurd rfl hmode
    | key => rfl
    | put => rfl
  rw [hx] at hf
  have free : filled.OperationFree :=
    fillNode_operationFree adds _ _ _ filled rfl (fun _ hn => by cases hn) hv hf
  exact free.store _ t hs

/-- A map with a default and a link that copies another attribute. -/
theorem operation_free_of_parse_linked_map :
    let copied := (Schema.scalar .any).linkIn .put (fun context => context.get? "note")
    let schema := Schema.ofKind (.map [("note", .scalar .any), ("copy", copied)])
    let input := Value.map [("note", .list [.string "n"])]
    let stored := Value.map [("note", .list [.string "n"]), ("copy", .list [.string "n"])]
    schema.parse (.ofMode .put) (some input) = .ok (some stored) ∧
      schema.Everywhere (Schema.AddsNoOperation .put) ∧ input.OperationFree ∧
        stored.OperationFree := by
  intro copied schema input stored
  have parsed : schema.parse (.ofMode .put) (some input) = .ok (some stored) := rfl
  have copies : copied.AddsNoOperation .put := by
    refine ⟨fun _ hd => ?_, fun link hl context free v hv => ?_, fun _ ht => ?_⟩
    · cases hd
    · cases hl
      exact free.siblings _ (Entries.mem_of_get? hv)
    · cases ht
  have adds : schema.Everywhere (Schema.AddsNoOperation .put) := by
    refine Schema.everywhere_iff.mpr ⟨Schema.addsNoOperation_ofKind _ _, fun child hc => ?_⟩
    rcases List.mem_cons.mp hc with rfl | hc
    · exact Schema.addsNoOperation_scalar _ _
    · cases List.mem_singleton.mp hc
      exact Schema.everywhere_iff.mpr ⟨copies, List.forall_mem_nil _⟩
  have free : input.OperationFree := by
    refine Value.operationFree_map fun entry hm => ?_
    cases List.mem_singleton.mp hm
    refine Value.operationFree_list fun v hm => ?_
    cases List.mem_singleton.mp hm
    intro hop
    cases hop
  refine ⟨parsed, adds, free, operation_free_of_parse (by decide) adds (fun v hv => ?_) parsed⟩
  cases hv
  exact fun hthrough => free hthrough.hasOperation

/-- Where operations get through in put and in key mode: an `any` does not look into the list it
takes, also where the list comes from an attribute that key mode skips. -/
theorem operation_through_any :
    let schema := Schema.scalar .any
    let smuggled := Value.list [.op (.add (.string "new"))]
    let key := ((Schema.scalar .any).linkIn .key (fun context => context.get? "note")).makeKey
    let item := Schema.ofKind (.item [("note", .scalar .any), ("id", key)])
    (∀ mode, schema.Everywhere (Schema.AddsNoOperation mode)) ∧
      schema.parse (.ofMode .put) (some smuggled) = .ok (some smuggled) ∧
      schema.parse (.ofMode .key) (some smuggled) = .ok (some smuggled) ∧
      ¬ smuggled.OperationFree ∧
      item.parse (.ofMode .key) (some (.map [("note", smuggled)])) =
        .ok (some (.map [("id", smuggled)])) := by
  intro schema smuggled key item
  have found : smuggled.HasOperation := .item List.mem_cons_self (.here _)
  exact ⟨fun mode => Schema.addsNoOperation_scalar mode _, rfl, rfl, fun free => free found, rfl⟩

end ItemShape
