import ItemShape.Proofs.Parse.Agree
import ItemShape.Proofs.Parse.Steps
import ItemShape.Proofs.Parse.Store
import ItemShape.Proofs.Value.Equal

/-!
# ItemShape.Proofs.Parse.ErrorPath

The path of an error is a way into the input (`errors_point_into_input`): to the value that was
refused, to the map whose names clash, or to a name that a map of the input does not have. Without
filling and without an extension this holds of both steps.

* `ValuePath.Reaches`, `ValuePath.Misses`: where a path leads in an input.
* `SchemaError.PointsInto`: what this must be for each reason.
* `TracedBy`, `Traced`: a run whose errors do, in either step. The second step builds its paths
  anew, so the trees are followed beside the input (`fillItems_traced`, `fillEntries_traced`,
  `fillAttributes_traced`).
-/

namespace ItemShape

/-! ## Following a path -/

/-- Into maps by name and into lists by position. -/
def Value.at? : List Segment → Value → Option Value
  | [], v => some v
  | .member name :: rest, .map entries => (Entries.get? name entries).bind (at? rest)
  | .index position :: rest, .list items => items[position]?.bind (at? rest)
  | _, _ => none

theorem Value.at?_append (segments : List Segment) (segment : Segment) (v : Value) :
    at? (segments ++ [segment]) v = (at? segments v).bind (at? [segment]) := by
  induction segments generalizing v with
  | nil => rfl
  | cons first rest ih =>
    have through (w : Option Value) :
        w.bind (at? (rest ++ [segment])) = (w.bind (at? rest)).bind (at? [segment]) := by
      cases w with
      | none => rfl
      | some w => exact ih w
    cases first with
    | member name =>
      cases v with
      | map entries => exact through (Entries.get? name entries)
      | _ => rfl
    | index position =>
      cases v with
      | list items => exact through items[position]?
      | _ => rfl
    | operation tag => rfl

theorem Value.ne_operation_of_at? {segments : List Segment} {v w : Value}
    (h : at? segments v = some w) : ∀ segment ∈ segments, ∀ tag, segment ≠ .operation tag := by
  induction segments generalizing v with
  | nil => exact List.forall_mem_nil _
  | cons first rest ih =>
    cases first with
    | member name =>
      cases v with
      | map entries =>
        obtain ⟨inner, -, h⟩ := Option.bind_eq_some_iff.mp h
        exact List.forall_mem_cons.mpr ⟨fun tag hn => (by cases hn), ih h⟩
      | _ => cases h
    | index position =>
      cases v with
      | list items =>
        obtain ⟨inner, -, h⟩ := Option.bind_eq_some_iff.mp h
        exact List.forall_mem_cons.mpr ⟨fun tag hn => (by cases hn), ih h⟩
      | _ => cases h
    | operation tag => cases v <;> cases h

namespace ValuePath

/-- The input has this value at the path. -/
def Reaches (path : ValuePath) (input : Option Value) (v : Value) : Prop :=
  input.bind (Value.at? path.segments) = some v

/-- The input has nothing at the path: it is absent as a whole, or a map has no such name. -/
def Misses (path : ValuePath) (input : Option Value) : Prop :=
  (path = .root ∧ input = none) ∨ ∃ (parent : ValuePath) (name : String)
    (entries : List (String × Value)), path = parent.member name ∧
      parent.Reaches input (.map entries) ∧ Entries.get? name entries = none

/-- What the input has at the path. -/
def LeadsTo (path : ValuePath) (input : Option Value) : Option Value → Prop
  | some v => path.Reaches input v
  | none => path.Misses input

variable {path : ValuePath} {input : Option Value}

theorem reaches_extend {v w : Value} (h : path.Reaches input v) {segment : Segment}
    (hw : v.at? [segment] = some w) : (path.extend segment).Reaches input w := by
  obtain ⟨root, rfl, hv⟩ := Option.bind_eq_some_iff.mp h
  have hsegments : root.at? (path.segments ++ [segment]) = some w := by
    rw [Value.at?_append, hv]
    exact hw
  exact hsegments

theorem leadsTo_member {entries : List (String × Value)} (h : path.Reaches input (.map entries))
    (name : String) : (path.member name).LeadsTo input (Entries.get? name entries) := by
  cases hn : Entries.get? name entries with
  | none => exact .inr ⟨path, name, entries, rfl, h, hn⟩
  | some v => exact reaches_extend h (by simp [Value.at?, hn])

theorem reaches_index {items : List Value} (h : path.Reaches input (.list items)) {position : Nat}
    {item : Value} (hi : items[position]? = some item) :
    (path.index position).Reaches input item :=
  reaches_extend h (by simp [Value.at?, hi])

theorem Reaches.ne_operation {v : Value} (h : path.Reaches input v) :
    ∀ segment ∈ path.segments, ∀ tag, segment ≠ .operation tag := by
  obtain ⟨root, rfl, hv⟩ := Option.bind_eq_some_iff.mp h
  exact Value.ne_operation_of_at? hv

theorem Misses.ne_operation (h : path.Misses input) :
    ∀ segment ∈ path.segments, ∀ tag, segment ≠ .operation tag := by
  rcases h with ⟨rfl, -⟩ | ⟨parent, name, entries, rfl, hparent, -⟩
  · exact List.forall_mem_nil _
  · refine List.forall_mem_append.mpr ⟨hparent.ne_operation, List.forall_mem_singleton.mpr ?_⟩
    intro tag h
    cases h

end ValuePath

/-- The path leads to what the error is about: a refused value is there, and so is a map whose names
clash; a missing one is not. -/
structure SchemaError.PointsInto (input : Option Value) (e : SchemaError) : Prop where
  plain : ∀ segment ∈ e.path.segments, ∀ tag, segment ≠ .operation tag
  place :
    match e.reason with
    | .typeMismatch _ _ | .validationFailed _ => ∃ v, e.path.Reaches input v
    | .renameConflict _ => ∃ entries, e.path.Reaches input (.map entries)
    | .requiredAttributeMissing => e.path.Misses input

/-- The errors of a run point into the input, and so do those of a second step after it. -/
def TracedBy {α β : Type} (input : Option Value) (second : α → Except SchemaError β) :
    Except SchemaError α → Prop
  | .error e => e.PointsInto input
  | .ok a => ∀ e, second a = .error e → e.PointsInto input

/-- A node that is filled at the path, and stored there. -/
abbrev Traced (input : Option Value) (path : ValuePath) : Except SchemaError Filled → Prop :=
  TracedBy input fun filled => filled.store path

theorem TracedBy.traced {α β : Type} {input : Option Value} {path : ValuePath}
    {second : α → Except SchemaError β} {outcome : Except SchemaError α} {build : α → Filled}
    {wrap : β → Value} (h : TracedBy input second outcome)
    (stored : ∀ a, (build a).store path = (second a).map fun b => some (wrap b)) :
    Traced input path (outcome.map build) := by
  cases outcome with
  | error e => exact h
  | ok a =>
    intro e he
    have he : (build a).store path = .error e := he
    rw [stored] at he
    cases hs : second a with
    | error other =>
      rw [hs] at he
      cases he
      exact h _ hs
    | ok b =>
      rw [hs] at he
      cases he

section Errors

variable {input : Option Value} {path : ValuePath}

theorem ValuePath.Reaches.mismatch {v : Value} (h : path.Reaches input v)
    (expected actual : String) : (SchemaError.mismatch path expected actual).PointsInto input :=
  ⟨h.ne_operation, v, h⟩

theorem ValuePath.Reaches.invalid {v : Value} (h : path.Reaches input v) (message : String) :
    (SchemaError.invalid path message).PointsInto input :=
  ⟨h.ne_operation, v, h⟩

theorem ValuePath.Reaches.conflict {entries : List (String × Value)}
    (h : path.Reaches input (.map entries)) (stored : String) :
    (SchemaError.conflict path stored).PointsInto input :=
  ⟨h.ne_operation, entries, h⟩

theorem checkFilled_error {props : Props} {kind : KindName} {settings : Settings} {filled : Filled}
    {e : SchemaError} {v : Value} (h : settings.path.Reaches input v)
    (he : checkFilled props kind settings filled = .error e) : e.PointsInto input := by
  simp only [checkFilled] at he
  split at he
  · cases he
  · split at he
    · rename_i hc
      cases he
      simp only [checkEnumerated] at hc
      split at hc
      · cases hc
      · split at hc
        · cases hc
        · cases hc
          exact h.mismatch _ _
    · simp only [checkValidator] at he
      split at he
      · cases he
      · split at he
        · cases he
        · cases he
          exact h.invalid _

end Errors

/-! ## Lists, sets and records -/

section Children

variable {input : Option Value} {s : Settings}

theorem fillItems_traced {f : Settings → Option Value → Except SchemaError Filled}
    (items : List Value) (position : Nat)
    (h : ∀ i item, items[i]? = some item → Traced input (s.path.index (position + i))
      (f (s.at (s.path.index (position + i))) (some item))) :
    TracedBy input (Filled.storeItems s.path position) (fillItems f s position items) := by
  induction items generalizing position with
  | nil =>
    intro e he
    cases he
  | cons item rest ih =>
    have first : Traced input (s.path.index position)
        (f (s.at (s.path.index position)) (some item)) := h 0 item rfl
    have others := ih (position + 1) fun i other hi => by
      rw [Nat.add_assoc, Nat.add_comm 1 i]
      exact h (i + 1) other hi
    simp only [fillItems]
    cases hf : f (s.at (s.path.index position)) (some item) with
    | error e =>
      rw [hf] at first
      exact first
    | ok g =>
      rw [hf] at first
      cases hfs : fillItems f s (position + 1) rest with
      | error e =>
        rw [hfs] at others
        exact others
      | ok gs =>
        rw [hfs] at others
        intro e he
        simp only [Filled.storeItems] at he
        split at he
        · rename_i hs
          cases he
          exact first _ hs
        · split at he
          · rename_i hs
            cases he
            exact others _ hs
          · cases he

/-- Members are at the place of the set, in both steps. -/
theorem fillMembers_traced {f : Option Value → Except SchemaError Filled} (members : List Value)
    (h : ∀ member ∈ members, Traced input s.path (f (some member))) :
    TracedBy input (Filled.storeMembers s.path) (fillMembers f members) := by
  induction members with
  | nil =>
    intro e he
    cases he
  | cons member rest ih =>
    obtain ⟨first, h⟩ := List.forall_mem_cons.mp h
    have others := ih h
    simp only [fillMembers]
    cases hf : f (some member) with
    | error e =>
      rw [hf] at first
      exact first
    | ok g =>
      rw [hf] at first
      cases hfs : fillMembers f rest with
      | error e =>
        rw [hfs] at others
        exact others
      | ok gs =>
        rw [hfs] at others
        intro e he
        simp only [Filled.storeMembers] at he
        split at he
        · rename_i hs
          cases he
          exact first _ hs
        · split at he
          · rename_i hs
            cases he
            exact others _ hs
          · cases he

theorem storedKey_error {keys : Option Transformer} {key : String} {path : ValuePath}
    {e : SchemaError} (h : Filled.storedKey keys key path = .error e) :
    ∃ actual, e = .mismatch path "string key" actual := by
  simp only [Filled.storedKey] at h
  split at h
  · cases h
  · cases h
    exact ⟨_, rfl⟩

/-- The key of an entry and its element are at one place, and two keys that clash at the place of
the record. -/
theorem fillEntries_traced {f g : Settings → Option Value → Except SchemaError Filled}
    {entries : List (String × Value)} (keys : Option Transformer) (taken : List String)
    (hkey : ∀ entry ∈ entries, ∀ e,
      f (s.at (s.path.member entry.1)) (some (.string entry.1)) = .error e → e.PointsInto input)
    (hstored : ∀ entry ∈ entries, ∀ expected actual,
      (SchemaError.mismatch (s.path.member entry.1) expected actual).PointsInto input)
    (hclash : ∀ stored, (SchemaError.conflict s.path stored).PointsInto input)
    (h : ∀ entry ∈ entries, Traced input (s.path.member entry.1)
      (g (s.at (s.path.member entry.1)) (some entry.2))) :
    TracedBy input (Filled.storeEntries s.path keys taken) (fillEntries f g s entries) := by
  induction entries generalizing taken with
  | nil =>
    intro e he
    cases he
  | cons entry rest ih =>
    obtain ⟨key, v⟩ := entry
    obtain ⟨firstKey, hkey⟩ := List.forall_mem_cons.mp hkey
    obtain ⟨firstStored, hstored⟩ := List.forall_mem_cons.mp hstored
    obtain ⟨first, h⟩ := List.forall_mem_cons.mp h
    have others (taken : List String) := ih taken hkey hstored h
    simp only [fillEntries]
    cases hk : f (s.at (s.path.member key)) (some (.string key)) with
    | error e => exact firstKey e hk
    | ok _ =>
      cases hf : g (s.at (s.path.member key)) (some v) with
      | error e =>
        dsimp only at first
        rw [hf] at first
        exact first
      | ok content =>
        dsimp only at first
        rw [hf] at first
        cases hfs : fillEntries f g s rest with
        | error e =>
          have others := others []
          rw [hfs] at others
          exact others
        | ok fs =>
          rw [hfs] at others
          intro e he
          simp only [Filled.storeEntries] at he
          split at he
          · rename_i hs
            cases he
            exact first _ hs
          · exact others taken e he
          · split at he
            · rename_i hs
              cases he
              obtain ⟨actual, rfl⟩ := storedKey_error hs
              exact firstStored _ actual
            · split at he
              · cases he
                exact hclash _
              · split at he
                · rename_i hs
                  cases he
                  exact others _ _ hs
                · cases he

end Children

/-! ## Attributes -/

section Attributes

variable {input : Option Value} {s : Settings} {keyOnly : Bool} {scope : Option LinkContext}
  {entries : List (String × Value)} {children : List Child}

theorem fillAttributes_error {e : SchemaError}
    (h : fillAttributes children keyOnly s scope entries = .error e) :
    (∃ name ∈ Entries.names entries,
      e = .mismatch (s.path.member name) "declared attribute" "undeclared attribute") ∨
      ∃ child ∈ children, child.MayYield s entries (.error e) := by
  let Known (e : SchemaError) : Prop := (∃ name ∈ Entries.names entries,
      e = .mismatch (s.path.member name) "declared attribute" "undeclared attribute") ∨
    ∃ child ∈ children, child.MayYield s entries (.error e)
  -- The parse is compared with itself: its errors are known wherever they come up.
  have agree : Agree (fun e _ => Known e) (fun f g => ∃ slots others, f = .map slots ∧
        g = .map others ∧ List.Forall₂ (Slot.Rel Eq) slots others)
      (fillAttributes children keyOnly s scope entries)
      (fillAttributes children keyOnly s scope entries) := by
    refine fillAttributes_agree (V := Eq) rfl ?value ?declared (fun _ _ => rfl) ?skipped ?each
    case value =>
      rintro f _ rfl
      exact rel_of_refl Eq.refl _
    case declared =>
      cases hu : undeclared? children entries with
      | none => exact .none
      | some name => exact .some (.inl ⟨name, List.mem_of_find?_eq_some hu, rfl⟩)
    case skipped => exact fun _ _ _ => rel_of_refl Eq.refl _
    case each =>
      intro child hc _ siblings siblings' hsiblings
      cases Entries.rel_eq_iff.mp hsiblings.rel
      cases hf : child.fill (s.at (s.path.member child.name))
          (some (LinkContext.nested scope siblings)) (Entries.get? child.name entries) with
      | error e => exact .error (.inr ⟨child, hc, _, hf.symm⟩)
      | ok f => exact .ok rfl
  obtain ⟨e, e', hf, -, known⟩ | ⟨f, g, hf, -, -⟩ := agree.cases
  · rw [hf] at h
    cases h
    exact known
  · rw [hf] at h
    cases h

theorem storeSlots_error {path : ValuePath} {taken : List String} {slots : List (Slot Filled)}
    {e : SchemaError} (h : Filled.storeSlots path taken slots = .error e) :
    (∃ stored, e = .conflict path stored) ∨
      ∃ slot ∈ slots, slot.content.store (path.member slot.name) = .error e := by
  induction slots generalizing taken with
  | nil => cases h
  | cons slot rest ih =>
    have later (taken : List String) (h : Filled.storeSlots path taken rest = .error e) :
        (∃ stored, e = .conflict path stored) ∨
          ∃ other ∈ slot :: rest, other.content.store (path.member other.name) = .error e :=
      (ih h).imp_right fun ⟨other, hm, ho⟩ => ⟨other, List.mem_cons_of_mem _ hm, ho⟩
    simp only [Filled.storeSlots] at h
    split at h
    · rename_i hs
      cases h
      exact .inr ⟨slot, List.mem_cons_self, hs⟩
    · exact later _ h
    · split at h
      · cases h
        exact .inl ⟨_, rfl⟩
      · split at h
        · rename_i hs
          cases h
          exact later _ hs
        · cases h

theorem fillAttributes_traced (hmap : s.path.Reaches input (.map entries))
    (h : ∀ child ∈ children, ∀ outcome, child.MayYield s entries outcome →
      Traced input (s.path.member child.name) outcome) :
    Traced input s.path (fillAttributes children keyOnly s scope entries) := by
  cases hf : fillAttributes children keyOnly s scope entries with
  | error e =>
    rcases fillAttributes_error hf with ⟨name, hn, rfl⟩ | ⟨child, hc, hy⟩
    · obtain ⟨v, hv⟩ := Entries.exists_get?_iff.mpr hn
      have hname := ValuePath.leadsTo_member hmap name
      rw [hv] at hname
      exact ValuePath.Reaches.mismatch hname _ _
    · exact h child hc _ hy
  | ok filled =>
    obtain ⟨-, slots, rfl, hslots⟩ := fillAttributes_ok hf
    have traced : TracedBy input (Filled.storeSlots s.path []) (.ok slots) := by
      intro e he
      rcases storeSlots_error he with ⟨stored, rfl⟩ | ⟨slot, hm, hstore⟩
      · exact hmap.conflict stored
      · obtain ⟨child, hc, hfills⟩ := exists_of_forall₂_right hslots slot hm
        have content := h child (List.mem_of_mem_filter hc) _ hfills.content
        rw [← hfills.name] at content
        exact content e hstore
    exact traced.traced (Filled.store_map s.path)

end Attributes

/-! ## Nodes -/

section Nodes

variable {input : Option Value} {s : Settings} {scope : Option LinkContext}

/-- A scalar is refused where it stands, whatever it is compared with, and can always be stored. -/
theorem fillNode_scalar_traced {schema : Schema} {kind : ScalarKind}
    (hk : schema.kind = .scalar kind) {held : Value} (hr : s.path.Reaches input held) (v : Value) :
    Traced input s.path (fillNode schema none s scope (some v)) := by
  obtain ⟨props, _⟩ := schema
  cases hk
  rw [fillNode_unextended rfl]
  simp only [resolved, fillKind]
  cases scalarMatches kind v with
  | false => exact hr.mismatch _ _
  | true =>
    simp only [if_true]
    cases hc : checkFilled props (Kind.scalar kind : Kind Schema).name s
        (.scalar props.transformer v) with
    | error e => exact checkFilled_error hr hc
    | ok _ =>
      intro e he
      cases he

/-- What a schema is asked: the path leads to what the input has for the node. -/
def Schema.Traces (input : Option Value) (schema : Schema) : Prop :=
  ∀ s scope given, s.fill = false → s.path.LeadsTo input given →
    (∀ v, given = some v → v.DistinctNames) →
      Traced input s.path (fillNode schema none s scope given)

variable {kind : Kind Schema} {transformer : Option Transformer}

theorem fillKind_attributes_traced (hfill : s.fill = false)
    {attributes : List (String × Schema)} (hk : kind.attributes? = some attributes)
    (each : ∀ schema ∈ kind.children, schema.Traces input) {v : Value}
    (hr : s.path.Reaches input v) (hd : v.DistinctNames) :
    Traced input s.path (fillKind kind transformer none s scope v) := by
  rw [fillKind_attributes_eq hk]
  cases v with
  | map entries =>
    refine fillAttributes_traced hr fun child hc outcome hy => ?_
    obtain ⟨entry, he, rfl⟩ := List.mem_map.mp hc
    obtain ⟨context, rfl⟩ := hy
    refine each entry.2 (Kind.mem_children hk he) _ _ _ hfill
      (ValuePath.leadsTo_member hr entry.1) fun w hw => ?_
    exact (Value.distinctNames_map.mp hd).2 _ (Entries.mem_of_get? hw)
  | _ => exact hr.mismatch _ _

theorem fillKind_record_traced (hfill : s.fill = false) {keys elements : Schema}
    (hkeys : keys.kind = .scalar .string) (element : elements.Traces input) {v : Value}
    (hr : s.path.Reaches input v) (hd : v.DistinctNames) :
    Traced input s.path (fillKind (.record keys elements) transformer none s scope v) := by
  cases v with
  | map entries =>
    obtain ⟨distinct, hd⟩ := Value.distinctNames_map.mp hd
    have place : ∀ entry ∈ entries, (s.path.member entry.1).Reaches input entry.2 := by
      intro entry he
      have hentry := ValuePath.leadsTo_member hr entry.1
      rwa [Entries.get?_of_mem distinct he] at hentry
    have traced := fillEntries_traced (s := s)
      (f := fun place key => fillNode keys none place none key)
      (g := fun place element => fillNode elements none place scope element) keys.transformer? []
      (fun entry he e hf => ?_) (fun entry he => (place entry he).mismatch)
      (fun stored => hr.conflict stored) (fun entry he => ?_)
    · have stored := traced.traced (Filled.store_record s.path keys.transformer?)
      simp only [fillKind]
      split
      · rename_i hf
        rwa [hf] at stored
      · rename_i fs hf
        rwa [hf] at stored
    · have hkey : Traced input (s.path.member entry.1) (fillNode keys none
          (s.at (s.path.member entry.1)) none (some (.string entry.1))) :=
        fillNode_scalar_traced hkeys (s := s.at (s.path.member entry.1)) (place entry he) _
      rw [hf] at hkey
      exact hkey
    · refine element (s.at (s.path.member entry.1)) _ _ hfill (place entry he) fun w hw => ?_
      cases hw
      exact hd entry he
  | _ => exact hr.mismatch _ _

theorem fillKind_traced {props : Props} (wf : (Schema.mk props kind).WellFormed)
    (hfill : s.fill = false) (each : ∀ schema ∈ kind.children, schema.Traces input) {v : Value}
    (hr : s.path.Reaches input v) (hd : v.DistinctNames) :
    Traced input s.path (fillKind kind transformer none s scope v) := by
  have fit := wf.root
  cases kind with
  | scalar kind =>
    simp only [fillKind]
    cases scalarMatches kind v with
    | true =>
      intro e he
      cases he
    | false => exact hr.mismatch _ _
  | set elements =>
    obtain ⟨-, scalar, hscalar⟩ : elements.IsElement ∧ ∃ kind, elements.kind = .scalar kind := fit
    cases v with
    | list members =>
      have traced := fillMembers_traced (s := s)
        (f := fun member => fillNode elements none s scope member) members
        fun member _ => fillNode_scalar_traced hscalar hr member
      have stored := traced.traced (Filled.store_set s.path)
      simp only [fillKind]
      split
      · exact hr.mismatch _ _
      · split
        · rename_i hf
          rwa [hf] at stored
        · rename_i fs hf
          rwa [hf] at stored
    | _ => exact hr.mismatch _ _
  | list elements =>
    cases v with
    | list items =>
      have traced := fillItems_traced (s := s)
        (f := fun place item => fillNode elements none place scope item) items 0
        fun i item hi => by
          rw [Nat.zero_add]
          refine each elements List.mem_cons_self (s.at (s.path.index i)) _ _ hfill
            (ValuePath.reaches_index hr hi) fun w hw => ?_
          cases hw
          exact Value.distinctNames_list.mp hd item (List.mem_of_getElem? hi)
      have stored := traced.traced (Filled.store_list s.path)
      simp only [fillKind]
      split
      · rename_i hf
        rwa [hf] at stored
      · rename_i fs hf
        rwa [hf] at stored
    | _ => exact hr.mismatch _ _
  | record keys elements =>
    obtain ⟨-, -, hkeys⟩ : keys.IsElement ∧ elements.IsElement ∧ keys.kind = .scalar .string := fit
    exact fillKind_record_traced hfill hkeys (each elements (by simp [Kind.children])) hr hd
  | anyOf members =>
    simp only [fillKind]
    cases hf : fillFirst members none s scope v with
    | none => exact hr.mismatch _ _
    | some filled =>
      -- The member that accepts the value has filled the tree.
      obtain ⟨member, hm, hfilled⟩ := fillFirst_eq_some hf
      have traced := each member hm s scope (some v) hfill hr fun w hw => by
        cases hw
        exact hd
      rw [hfilled] at traced
      exact traced
  | map attributes => exact fillKind_attributes_traced hfill rfl each hr hd
  | item attributes => exact fillKind_attributes_traced hfill rfl each hr hd

end Nodes

/-- The errors of every node point into the input, by induction on the schema. -/
theorem Schema.traces {schema : Schema} (wf : schema.WellFormed) (input : Option Value) :
    schema.Traces input := by
  induction schema using Schema.induct with
  | node props kind ih =>
    intro s scope given hfill hleads hd
    have each : ∀ schema ∈ kind.children, schema.Traces input :=
      fun schema hm => ih schema hm (wf.child hm)
    rw [fillNode_unextended rfl]
    cases given with
    | none =>
      have absent : resolved props s scope none = none := by simp [resolved, hfill]
      simp only [absent]
      split
      · have hmisses : s.path.Misses input := hleads
        exact ⟨hmisses.ne_operation, hmisses⟩
      · intro e he
        cases he
    | some v =>
      have traced : Traced input s.path (fillKind kind props.transformer none s scope v) :=
        fillKind_traced wf hfill each hleads (hd v rfl)
      simp only [resolved]
      split
      · rename_i hf
        rw [hf] at traced
        exact traced
      · rename_i filled hf
        rw [hf] at traced
        split
        · rename_i hc
          exact checkFilled_error hleads hc
        · exact traced

/-- Without filling and without an extension, every error of a parse at the root points into the
input, whichever step it comes from: a refused value and a map with clashing names are there to be
reached, a missing attribute is not. -/
theorem errors_point_into_input {schema : Schema} {options : ParseOptions} {input : Option Value}
    {e : SchemaError} (hb : schema.Built) (hx : options.extension = none)
    (hfill : options.fill = false) (hroot : options.path = .root)
    (hd : ∀ v, input = some v → v.DistinctNames)
    (h : .error e ∈ (schema.start options input).outcomes) : e.PointsInto input := by
  have hleads : options.path.LeadsTo input input := by
    rw [hroot]
    cases input with
    | none => exact .inl ⟨rfl, rfl⟩
    | some v => exact (rfl : some v = some v)
  have traced : Traced input options.path
      (fillNode schema none options.toSettings none input) :=
    schema.traces hb.wellFormed input options.toSettings none input hfill hleads hd
  unfold Schema.start start at h
  rw [hx] at h
  cases hf : fillNode schema none options.toSettings none input with
  | error other =>
    rw [hf] at h traced
    rw [Parser.outcomes_new] at h
    cases List.mem_singleton.mp h
    exact traced
  | ok filled =>
    rw [hf] at h traced
    simp only [Parser.outcomes_new] at h
    rcases List.mem_cons.mp h with h | h
    · cases h
    · split at h
      · exact traced e (List.mem_singleton.mp h).symm
      · cases h

/-- Two attributes share a stored name, and the second item of a list has both of them: the second
step fails, at that item. -/
theorem errors_point_into_input_clash_in_list :
    let leaf := ((Schema.scalar .string).savedAs "pk").makeOptional
    let item := Schema.ofKind (.map [("id", leaf), ("name", leaf)])
    let schema := Schema.ofKind (.list item)
    let clashing := [("id", Value.string "u"), ("name", .string "n")]
    let input := some (Value.list [.map [("id", .string "t")], .map clashing])
    let place : ValuePath := ⟨[.index 1]⟩
    let options := { ParseOptions.ofMode .put with fill := false }
    let e := SchemaError.conflict place "pk"
    (schema.Built ∧ options.extension = none ∧ options.fill = false ∧ options.path = .root ∧
      (∀ v, input = some v → v.DistinctNames) ∧
      .error e ∈ (schema.start options input).outcomes) ∧
      e.PointsInto input ∧ place.Reaches input (.map clashing) := by
  intro leaf item schema clashing input place options e
  have leafBuilt : leaf.Built :=
    .withProps (.withProps (.scalar .string) fun props => { props with savedAs := some "pk" })
      fun props => { props with required := .never }
  have itemBuilt : item.Built := by
    refine .map (fun entry he => ?_)
      (rfl : Schema.map? [("id", leaf), ("name", leaf)] = .ok item)
    rcases List.mem_cons.mp he with rfl | he
    · exact leafBuilt
    · cases List.mem_singleton.mp he
      exact leafBuilt
  have built : schema.Built := .list itemBuilt (rfl : Schema.list? item = .ok schema)
  have distinct : ∀ v, input = some v → v.DistinctNames := by
    intro v hv
    rw [← Option.some.inj hv]
    have plain (text : String) : (Value.string text).DistinctNames := trivial
    simp [plain, clashing, Value.distinctNames_list, Value.distinctNames_map, Entries.Distinct,
      Entries.names]
  have fails : .error e ∈ (schema.start options input).outcomes :=
    List.mem_cons_of_mem _ List.mem_cons_self
  exact ⟨⟨built, rfl, rfl, rfl, distinct, fails⟩,
    errors_point_into_input built rfl rfl rfl distinct fails, rfl⟩

end ItemShape
