import ItemShape.Parse.Fill
import ItemShape.Proofs.Lists
import ItemShape.Proofs.Schema.Built

/-!
# ItemShape.Proofs.Parse.Fill

What a successful first step says about a node: one lemma for each thing a node can do.

* `fillNode_extended_ok_iff`, `fillNode_absent_ok_iff`, `fillNode_present_ok_iff`: the node is
  owned by the extension, has no value, or has one that its kind and its checks accept.
* `fillKind_list_ok`, `fillKind_set_ok`, `fillKind_record_ok`, `fillKind_attributes_ok`,
  `fillKind_anyOf_ok_iff`: what the children are filled from. Places and contexts of children are
  left open, as most statements do not depend on them.
* `fillItems_cons`, `fillMembers_cons`, `fillEntries_cons`, `fillDeferred_done`,
  `fillDeferred_putOff`: the walkers one child further, as sequences of runs.
* `exists_fillItems`, `exists_fillMembers`, `exists_fillEntries`, `exists_fillAttributes`: the
  children succeed together if they do one by one.
-/

namespace ItemShape

attribute [local simp] fillNode fillKind fillChildren fillFirst
attribute [local simp] fillItems fillMembers fillEntries fillDirect fillDeferred

/-! ## Nodes -/

/-- The value a node goes on with. -/
def resolved (props : Props) (settings : Settings) (scope : Option LinkContext)
    (given : Option Value) : Option Value :=
  match given with
  | some value => some value
  | none => if settings.fill then resolveMissing props settings.mode scope else none

/-- What stands in for an absent value comes from the link or is the default. -/
theorem resolved_none_cases {props : Props} {settings : Settings} {scope : Option LinkContext}
    {v : Value} (h : resolved props settings scope none = some v) :
    (∃ link context, props.links.get? settings.mode = some link ∧ scope = some context ∧
        link context = some v) ∨
      ∃ default, props.defaults.get? settings.mode = some default ∧ default.resolve = v := by
  simp only [resolved, resolveMissing] at h
  split at h
  · have defaulted : (props.defaults.get? settings.mode).map Default.resolve = some v →
        ∃ default, props.defaults.get? settings.mode = some default ∧ default.resolve = v :=
      Option.map_eq_some_iff.mp
    cases hl : props.links.get? settings.mode with
    | none =>
      rw [hl] at h
      exact .inr (defaulted h)
    | some link =>
      rw [hl] at h
      cases scope with
      | none => exact .inr (defaulted h)
      | some context =>
        dsimp only at h
        cases hv : link context with
        | none =>
          rw [hv] at h
          exact .inr (defaulted h)
        | some w =>
          rw [hv] at h
          cases h
          exact .inl ⟨link, context, rfl, rfl, hv⟩
  · cases h

section Node

variable {props : Props} {kind : Kind Schema} {extension : Option Extension} {settings : Settings}
  {scope : Option LinkContext} {input given : Option Value} {value : Value} {filled : Filled}

theorem fillNode_extended_ok_iff {parser : Parser}
    (h : Extension.consult extension (.mk props kind) settings input = .extended parser) :
    fillNode (.mk props kind) extension settings scope input = .ok filled ↔
      ∃ value, parser.next.1.getD (.ok none) = .ok value ∧
        filled = .extended value parser.next.2 := by
  simp only [fillNode, h]
  generalize parser.next = step
  rcases step with ⟨_ | _ | _, rest⟩ <;> simp [eq_comm]

theorem fillNode_unextended
    (h : Extension.consult extension (.mk props kind) settings input = .unextended given) :
    fillNode (.mk props kind) extension settings scope input =
      match resolved props settings scope given with
      | none =>
        if props.required.isRequired settings.mode then .error (.missing settings.path)
        else .ok .absent
      | some value =>
        match fillKind kind props.transformer extension settings scope value with
        | .error e => .error e
        | .ok filled =>
          match checkFilled props kind.name settings filled with
          | .error e => .error e
          | .ok _ => .ok filled := by
  rw [fillNode, h]
  cases given <;> rfl

theorem fillNode_absent_ok_iff
    (h : Extension.consult extension (.mk props kind) settings input = .unextended given)
    (hr : resolved props settings scope given = none) :
    fillNode (.mk props kind) extension settings scope input = .ok filled ↔
      props.required.isRequired settings.mode = false ∧ filled = .absent := by
  rw [fillNode_unextended h, hr]
  cases props.required.isRequired settings.mode <;> simp [eq_comm]

theorem fillNode_present_ok_iff
    (h : Extension.consult extension (.mk props kind) settings input = .unextended given)
    (hr : resolved props settings scope given = some value) :
    fillNode (.mk props kind) extension settings scope input = .ok filled ↔
      fillKind kind props.transformer extension settings scope value = .ok filled ∧
        checkFilled props kind.name settings filled = .ok () := by
  rw [fillNode_unextended h]
  simp only [hr]
  constructor
  · intro h
    split at h
    · cases h
    · rename_i hk
      split at h
      · cases h
      · rename_i hc
        cases h
        exact ⟨hk, hc⟩
  · rintro ⟨hk, hc⟩
    simp only [hk, hc]

theorem fillNode_some_ok_iff :
    fillNode (.mk props kind) none settings scope (some value) = .ok filled ↔
      fillKind kind props.transformer none settings scope value = .ok filled ∧
        checkFilled props kind.name settings filled = .ok () :=
  fillNode_present_ok_iff rfl rfl

end Node

/-! ## Lists, sets and records -/

section Children

variable {settings : Settings} {scope : Option LinkContext}

theorem fillItems_cons (f : Settings → Option Value → Except SchemaError Filled)
    (settings : Settings) (position : Nat) (item : Value) (rest : List Value) :
    fillItems f settings position (item :: rest) =
      (f (settings.at (settings.path.index position)) (some item)).bind fun filled =>
        (fillItems f settings (position + 1) rest).map fun others => filled :: others := by
  rw [fillItems]
  cases f (settings.at (settings.path.index position)) (some item) with
  | error e => rfl
  | ok filled =>
    dsimp only [Except.bind]
    cases fillItems f settings (position + 1) rest <;> rfl

theorem fillItems_cons_ok_iff {fillItem : Settings → Option Value → Except SchemaError Filled}
    {position : Nat} {item : Value} {rest : List Value} {filled : List Filled} :
    fillItems fillItem settings position (item :: rest) = .ok filled ↔
      ∃ f others, fillItem (settings.at (settings.path.index position)) (some item) = .ok f ∧
        fillItems fillItem settings (position + 1) rest = .ok others ∧ filled = f :: others := by
  rw [fillItems_cons]
  cases fillItem (settings.at (settings.path.index position)) (some item) with
  | error e => simp [Except.bind]
  | ok f =>
    cases fillItems fillItem settings (position + 1) rest <;>
      simp [Except.bind, Except.map, eq_comm]

theorem fillItems_ok {fillItem : Settings → Option Value → Except SchemaError Filled}
    {position : Nat} {items : List Value} {filled : List Filled}
    (h : fillItems fillItem settings position items = .ok filled) :
    List.Forall₂ (fun item f => ∃ path, fillItem (settings.at path) (some item) = .ok f)
      items filled := by
  induction items generalizing position filled with
  | nil =>
    cases h
    exact .nil
  | cons item rest ih =>
    obtain ⟨f, others, hf, hr, rfl⟩ := fillItems_cons_ok_iff.mp h
    exact .cons ⟨_, hf⟩ (ih hr)

theorem exists_fillItems {fillItem : Settings → Option Value → Except SchemaError Filled}
    {items : List Value}
    (h : ∀ item ∈ items, ∀ path, ∃ f, fillItem (settings.at path) (some item) = .ok f)
    (position : Nat) : ∃ filled, fillItems fillItem settings position items = .ok filled := by
  induction items generalizing position with
  | nil => exact ⟨[], rfl⟩
  | cons item rest ih =>
    rw [List.forall_mem_cons] at h
    obtain ⟨f, hf⟩ := h.1 (settings.path.index position)
    obtain ⟨fs, hfs⟩ := ih h.2 (position + 1)
    exact ⟨_, fillItems_cons_ok_iff.mpr ⟨f, fs, hf, hfs, rfl⟩⟩

theorem fillMembers_cons (f : Option Value → Except SchemaError Filled) (member : Value)
    (rest : List Value) : fillMembers f (member :: rest) =
      (f (some member)).bind fun filled =>
        (fillMembers f rest).map fun others => filled :: others := by
  rw [fillMembers]
  cases f (some member) with
  | error e => rfl
  | ok filled =>
    dsimp only [Except.bind]
    cases fillMembers f rest <;> rfl

theorem fillMembers_cons_ok_iff {fillMember : Option Value → Except SchemaError Filled}
    {member : Value} {rest : List Value} {filled : List Filled} :
    fillMembers fillMember (member :: rest) = .ok filled ↔
      ∃ f others, fillMember (some member) = .ok f ∧
        fillMembers fillMember rest = .ok others ∧ filled = f :: others := by
  rw [fillMembers_cons]
  cases fillMember (some member) with
  | error e => simp [Except.bind]
  | ok f => cases fillMembers fillMember rest <;> simp [Except.bind, Except.map, eq_comm]

theorem fillMembers_ok {fillMember : Option Value → Except SchemaError Filled}
    {members : List Value} {filled : List Filled}
    (h : fillMembers fillMember members = .ok filled) :
    List.Forall₂ (fun member f => fillMember (some member) = .ok f) members filled := by
  induction members generalizing filled with
  | nil =>
    cases h
    exact .nil
  | cons member rest ih =>
    obtain ⟨f, others, hf, hr, rfl⟩ := fillMembers_cons_ok_iff.mp h
    exact .cons hf (ih hr)

theorem exists_fillMembers {fillMember : Option Value → Except SchemaError Filled}
    {members : List Value} (h : ∀ member ∈ members, ∃ f, fillMember (some member) = .ok f) :
    ∃ filled, fillMembers fillMember members = .ok filled := by
  induction members with
  | nil => exact ⟨[], rfl⟩
  | cons member rest ih =>
    rw [List.forall_mem_cons] at h
    obtain ⟨f, hf⟩ := h.1
    obtain ⟨fs, hfs⟩ := ih h.2
    exact ⟨_, fillMembers_cons_ok_iff.mpr ⟨f, fs, hf, hfs, rfl⟩⟩

theorem fillEntries_cons (f g : Settings → Option Value → Except SchemaError Filled)
    (settings : Settings) (entry : String × Value) (rest : List (String × Value)) :
    fillEntries f g settings (entry :: rest) =
      (f (settings.at (settings.path.member entry.1)) (some (.string entry.1))).bind fun _ =>
        (g (settings.at (settings.path.member entry.1)) (some entry.2)).bind fun filled =>
          (fillEntries f g settings rest).map fun others => (entry.1, filled) :: others := by
  rw [fillEntries]
  cases f (settings.at (settings.path.member entry.1)) (some (.string entry.1)) with
  | error e => rfl
  | ok _ =>
    dsimp only [Except.bind]
    cases g (settings.at (settings.path.member entry.1)) (some entry.2) with
    | error e => rfl
    | ok filled =>
      dsimp only
      cases fillEntries f g settings rest <;> rfl

theorem fillEntries_cons_ok_iff
    {fillKey fillElement : Settings → Option Value → Except SchemaError Filled}
    {key : String} {v : Value} {rest : List (String × Value)} {filled : List (String × Filled)} :
    fillEntries fillKey fillElement settings ((key, v) :: rest) = .ok filled ↔
      ∃ f others, (∃ k, fillKey (settings.at (settings.path.member key)) (some (.string key)) =
          .ok k) ∧
        fillElement (settings.at (settings.path.member key)) (some v) = .ok f ∧
          fillEntries fillKey fillElement settings rest = .ok others ∧
            filled = (key, f) :: others := by
  rw [fillEntries_cons]
  cases fillKey (settings.at (settings.path.member key)) (some (.string key)) with
  | error e => simp [Except.bind]
  | ok k =>
    cases fillElement (settings.at (settings.path.member key)) (some v) with
    | error e => simp [Except.bind]
    | ok f =>
      cases fillEntries fillKey fillElement settings rest <;>
        simp [Except.bind, Except.map, eq_comm]

theorem fillEntries_ok {fillKey fillElement : Settings → Option Value → Except SchemaError Filled}
    {entries : List (String × Value)} {filled : List (String × Filled)}
    (h : fillEntries fillKey fillElement settings entries = .ok filled) :
    List.Forall₂ (fun entry f => entry.1 = f.1 ∧
        (∃ path g, fillKey (settings.at path) (some (.string entry.1)) = .ok g) ∧
        ∃ path, fillElement (settings.at path) (some entry.2) = .ok f.2) entries filled := by
  induction entries generalizing filled with
  | nil =>
    cases h
    exact .nil
  | cons entry rest ih =>
    obtain ⟨f, others, hk, he, hr, rfl⟩ := fillEntries_cons_ok_iff.mp h
    exact .cons ⟨rfl, ⟨_, hk⟩, _, he⟩ (ih hr)

theorem exists_fillEntries
    {fillKey fillElement : Settings → Option Value → Except SchemaError Filled}
    {entries : List (String × Value)}
    (hk : ∀ entry ∈ entries, ∀ path, ∃ f,
      fillKey (settings.at path) (some (.string entry.1)) = .ok f)
    (he : ∀ entry ∈ entries, ∀ path, ∃ f, fillElement (settings.at path) (some entry.2) = .ok f) :
    ∃ filled, fillEntries fillKey fillElement settings entries = .ok filled := by
  induction entries with
  | nil => exact ⟨[], rfl⟩
  | cons entry rest ih =>
    rw [List.forall_mem_cons] at hk he
    obtain ⟨f, hf⟩ := he.1 (settings.path.member entry.1)
    obtain ⟨fs, hfs⟩ := ih hk.2 he.2
    exact ⟨_, fillEntries_cons_ok_iff.mpr
      ⟨f, fs, hk.1 (settings.path.member entry.1), hf, hfs, rfl⟩⟩

end Children

/-! ## Attributes -/

section Attributes

variable {keyOnly : Bool} {settings : Settings} {scope : Option LinkContext}
  {input : List (String × Value)}

/-- Whether the attribute takes part in the parse at all. -/
def Child.isParsed (keyOnly : Bool) (child : Child) : Bool :=
  !keyOnly || child.isKey

/-- The outcome of filling the attribute in some context. -/
def Child.MayYield (settings : Settings) (input : List (String × Value)) (child : Child)
    (outcome : Except SchemaError Filled) : Prop :=
  ∃ context, outcome = child.fill (settings.at (settings.path.member child.name)) (some context)
    (Entries.get? child.name input)

/-- What the first pass may leave of an attribute. -/
def Attempt.Sound (keyOnly : Bool) (settings : Settings) (input : List (String × Value))
    (entry : Child × Attempt) : Prop :=
  match entry.2 with
  | .skipped => entry.1.isParsed keyOnly = false
  | .deferred => entry.1.isParsed keyOnly = true ∧ Entries.get? entry.1.name input = none
  | .done outcome => entry.1.isParsed keyOnly = true ∧ entry.1.MayYield settings input outcome

theorem fillDirect_sound (keyOnly : Bool) (settings : Settings) (scope : Option LinkContext)
    (input : List (String × Value)) (children : List Child) (siblings : List (String × Value)) :
    (fillDirect keyOnly settings scope input children siblings).1.map Prod.fst = children ∧
      ∀ entry ∈ (fillDirect keyOnly settings scope input children siblings).1,
        Attempt.Sound keyOnly settings input entry := by
  induction children generalizing siblings with
  | nil => simp
  | cons child rest ih =>
    simp only [fillDirect]
    split
    · rename_i hs
      obtain ⟨hm, ha⟩ := ih (if settings.fill then
        recordSibling siblings child.name (Entries.get? child.name input) else siblings)
      refine ⟨by rw [List.map_cons, hm], List.forall_mem_cons.mpr ⟨?_, ha⟩⟩
      simpa [Attempt.Sound, Child.isParsed] using hs
    · rename_i hs
      have hp : child.isParsed keyOnly = true := by
        cases keyOnly <;> simp_all [Child.isParsed]
      split
      · rename_i hd
        obtain ⟨hm, ha⟩ := ih siblings
        refine ⟨by rw [List.map_cons, hm], List.forall_mem_cons.mpr ⟨⟨hp, ?_⟩, ha⟩⟩
        simp only [Bool.and_eq_true, Option.isNone_iff_eq_none] at hd
        exact hd.1.1
      · obtain ⟨hm, ha⟩ := ih _
        exact ⟨by rw [List.map_cons, hm], List.forall_mem_cons.mpr ⟨⟨hp, _, rfl⟩, ha⟩⟩

/-- The slot holds what the attribute was filled with. -/
structure Child.Fills (settings : Settings) (input : List (String × Value)) (child : Child)
    (slot : Slot Filled) : Prop where
  name : slot.name = child.name
  stored : slot.stored = child.stored
  content : child.MayYield settings input (.ok slot.content)

theorem fillDeferred_done {child : Child} {outcome : Except SchemaError Filled}
    {rest : List (Child × Attempt)} {siblings : List (String × Value)} :
    fillDeferred settings scope ((child, .done outcome) :: rest) siblings =
      outcome.bind fun filled => (fillDeferred settings scope rest siblings).map fun others =>
        ⟨child.name, child.stored, filled⟩ :: others := by
  cases outcome with
  | error e => rw [fillDeferred, Except.bind]
  | ok filled =>
    rw [fillDeferred, Except.bind]
    cases fillDeferred settings scope rest siblings <;> rfl

theorem fillDeferred_putOff {child : Child} {rest : List (Child × Attempt)}
    {siblings : List (String × Value)} :
    fillDeferred settings scope ((child, .deferred) :: rest) siblings =
      (child.fill (settings.at (settings.path.member child.name))
        (some (LinkContext.nested scope siblings)) none).bind fun filled =>
          (fillDeferred settings scope rest (recordSibling siblings child.name filled.value?)).map
            fun others => ⟨child.name, child.stored, filled⟩ :: others := by
  rw [fillDeferred]
  cases child.fill (settings.at (settings.path.member child.name))
      (some (LinkContext.nested scope siblings)) none with
  | error e => rfl
  | ok filled =>
    dsimp only [Except.bind]
    cases fillDeferred settings scope rest (recordSibling siblings child.name filled.value?) <;> rfl

theorem fillDeferred_ok {attempts : List (Child × Attempt)} {siblings : List (String × Value)}
    {slots : List (Slot Filled)}
    (hs : ∀ entry ∈ attempts, Attempt.Sound keyOnly settings input entry)
    (h : fillDeferred settings scope attempts siblings = .ok slots) :
    List.Forall₂ (Child.Fills settings input)
      ((attempts.map Prod.fst).filter (Child.isParsed keyOnly)) slots := by
  induction attempts generalizing siblings slots with
  | nil =>
    simp only [fillDeferred] at h
    cases h
    exact .nil
  | cons entry rest ih =>
    obtain ⟨child, attempt⟩ := entry
    obtain ⟨hc, hr⟩ := List.forall_mem_cons.mp hs
    cases attempt with
    | skipped =>
      rw [List.map_cons, List.filter_cons_of_neg (by simpa [Attempt.Sound] using hc)]
      exact ih hr h
    | deferred =>
      rw [List.map_cons, List.filter_cons_of_pos hc.1]
      simp only [fillDeferred] at h
      split at h
      · cases h
      · rename_i filled hf
        split at h
        · cases h
        · rename_i others ho
          cases h
          exact .cons ⟨rfl, rfl, _, by rw [hc.2, hf]⟩ (ih hr ho)
    | done outcome =>
      rw [List.map_cons, List.filter_cons_of_pos hc.1]
      cases outcome with
      | error e =>
        simp only [fillDeferred] at h
        cases h
      | ok filled =>
        simp only [fillDeferred] at h
        split at h
        · cases h
        · rename_i others ho
          cases h
          exact .cons ⟨rfl, rfl, hc.2⟩ (ih hr ho)

theorem exists_fillDeferred {attempts : List (Child × Attempt)}
    (hs : ∀ entry ∈ attempts, Attempt.Sound keyOnly settings input entry)
    (hc : ∀ entry ∈ attempts, entry.1.isParsed keyOnly = true → ∀ outcome,
      entry.1.MayYield settings input outcome → ∃ f, outcome = .ok f)
    (siblings : List (String × Value)) :
    ∃ slots, fillDeferred settings scope attempts siblings = .ok slots := by
  induction attempts generalizing siblings with
  | nil => exact ⟨[], rfl⟩
  | cons entry rest ih =>
    obtain ⟨child, attempt⟩ := entry
    obtain ⟨hs, hsr⟩ := List.forall_mem_cons.mp hs
    obtain ⟨hc, hcr⟩ := List.forall_mem_cons.mp hc
    cases attempt with
    | skipped => exact ih hsr hcr siblings
    | deferred =>
      have hy := hc hs.1 _ ⟨LinkContext.nested scope siblings, rfl⟩
      rw [hs.2] at hy
      obtain ⟨f, hf⟩ := hy
      dsimp only at hf
      obtain ⟨fs, hfs⟩ := ih hsr hcr (recordSibling siblings child.name f.value?)
      exact ⟨⟨child.name, child.stored, f⟩ :: fs, by simp [hf, hfs]⟩
    | done outcome =>
      obtain ⟨f, rfl⟩ := hc hs.1 outcome hs.2
      obtain ⟨fs, hfs⟩ := ih hsr hcr siblings
      exact ⟨⟨child.name, child.stored, f⟩ :: fs, by simp [hfs]⟩

theorem undeclared?_eq_none_iff {children : List Child} :
    undeclared? children input = none ↔
      Entries.names input ⊆ children.map Child.name := by
  rw [undeclared?, List.find?_eq_none]
  refine forall₂_congr fun name _ => ?_
  simp

theorem fillAttributes_ok {children : List Child} {filled : Filled}
    (h : fillAttributes children keyOnly settings scope input = .ok filled) :
    Entries.names input ⊆ children.map Child.name ∧ ∃ slots, filled = .map slots ∧
      List.Forall₂ (Child.Fills settings input) (children.filter (Child.isParsed keyOnly))
        slots := by
  simp only [fillAttributes] at h
  split at h
  · cases h
  · rename_i hu
    split at h
    · cases h
    · rename_i slots hd
      cases h
      obtain ⟨hm, hs⟩ := fillDirect_sound keyOnly settings scope input children []
      refine ⟨undeclared?_eq_none_iff.mp hu, slots, rfl, ?_⟩
      rw [← hm]
      exact fillDeferred_ok hs hd

theorem exists_fillAttributes {children : List Child}
    (hu : Entries.names input ⊆ children.map Child.name)
    (hc : ∀ child ∈ children, child.isParsed keyOnly = true → ∀ outcome,
      child.MayYield settings input outcome → ∃ f, outcome = .ok f) :
    ∃ filled, fillAttributes children keyOnly settings scope input = .ok filled := by
  obtain ⟨hm, hs⟩ := fillDirect_sound keyOnly settings scope input children []
  have hattempts : ∀ entry ∈ (fillDirect keyOnly settings scope input children []).1,
      entry.1.isParsed keyOnly = true → ∀ outcome,
        entry.1.MayYield settings input outcome → ∃ f, outcome = .ok f := by
    intro entry he
    have hmem : entry.1 ∈ children := by
      rw [← hm]
      exact List.mem_map_of_mem he
    exact hc entry.1 hmem
  obtain ⟨slots, hd⟩ : ∃ slots, fillDeferred settings scope
      (fillDirect keyOnly settings scope input children []).1
      (fillDirect keyOnly settings scope input children []).2 = .ok slots :=
    exists_fillDeferred hs hattempts _
  exact ⟨.map slots, by simp only [fillAttributes, undeclared?_eq_none_iff.mpr hu, hd]⟩

end Attributes

/-! ## Kinds -/

section Kinds

variable {transformer : Option Transformer} {extension : Option Extension} {settings : Settings}
  {scope : Option LinkContext} {value : Value} {filled : Filled}

theorem fillKind_scalar_ok_iff {kind : ScalarKind} :
    fillKind (.scalar kind) transformer extension settings scope value = .ok filled ↔
      scalarMatches kind value = true ∧ filled = .scalar transformer value := by
  rw [fillKind]
  cases scalarMatches kind value <;> simp [eq_comm]

theorem fillKind_list_eq (elements : Schema) (items : List Value) :
    fillKind (.list elements) transformer extension settings scope (.list items) =
      (fillItems (fun place item => fillNode elements extension place scope item) settings 0
        items).map .list := by
  rw [fillKind]
  cases fillItems (fun place item => fillNode elements extension place scope item) settings 0
    items <;> rfl

theorem fillKind_set_eq (elements : Schema) (members : List Value) :
    fillKind (.set elements) transformer extension settings scope (.list members) =
      if Value.hasDuplicates members then
        .error (.mismatch settings.path "set of unique members" "duplicate members")
      else
        (fillMembers (fun member => fillNode elements none settings scope member) members).map
          .set := by
  rw [fillKind]
  cases fillMembers (fun member => fillNode elements none settings scope member) members <;> rfl

theorem fillKind_record_eq (keys elements : Schema) (input : List (String × Value)) :
    fillKind (.record keys elements) transformer extension settings scope (.map input) =
      (fillEntries (fun place key => fillNode keys none place none key)
        (fun place element => fillNode elements extension place scope element) settings input).map
          (.record keys.transformer?) := by
  rw [fillKind]
  cases fillEntries (fun place key => fillNode keys none place none key)
    (fun place element => fillNode elements extension place scope element) settings input <;> rfl

theorem fillKind_list_ok {elements : Schema}
    (h : fillKind (.list elements) transformer extension settings scope value = .ok filled) :
    ∃ items fs, value = .list items ∧ filled = .list fs ∧
      List.Forall₂ (fun item f => ∃ path,
        fillNode elements extension (settings.at path) scope (some item) = .ok f) items fs := by
  cases value with
  | list items =>
    simp only [fillKind] at h
    split at h
    · cases h
    · rename_i fs hf
      cases h
      exact ⟨items, fs, rfl, rfl, fillItems_ok hf⟩
  | _ => simp at h

theorem fillKind_set_ok {elements : Schema}
    (h : fillKind (.set elements) transformer extension settings scope value = .ok filled) :
    ∃ members fs, value = .list members ∧ filled = .set fs ∧
      Value.hasDuplicates members = false ∧
        List.Forall₂ (fun member f =>
          fillNode elements none settings scope (some member) = .ok f) members fs := by
  cases value with
  | list members =>
    simp only [fillKind] at h
    split at h
    · cases h
    · rename_i hd
      split at h
      · cases h
      · rename_i fs hf
        cases h
        exact ⟨members, fs, rfl, rfl, by simpa using hd, fillMembers_ok hf⟩
  | _ => simp at h

theorem exists_fillKind_list {elements : Schema} {items : List Value}
    (h : ∀ item ∈ items, ∀ path, ∃ f,
      fillNode elements extension (settings.at path) scope (some item) = .ok f) :
    ∃ filled, fillKind (.list elements) transformer extension settings scope (.list items) =
      .ok filled := by
  obtain ⟨fs, hf⟩ : ∃ fs, fillItems (fun place item => fillNode elements extension place scope item)
    settings 0 items = .ok fs := exists_fillItems h 0
  exact ⟨.list fs, by simp only [fillKind, hf]⟩

theorem exists_fillKind_set {elements : Schema} {members : List Value}
    (hu : Value.hasDuplicates members = false)
    (h : ∀ member ∈ members, ∃ f, fillNode elements none settings scope (some member) = .ok f) :
    ∃ filled, fillKind (.set elements) transformer extension settings scope (.list members) =
      .ok filled := by
  obtain ⟨fs, hf⟩ : ∃ fs, fillMembers (fun member => fillNode elements none settings scope member)
    members = .ok fs := exists_fillMembers h
  exact ⟨.set fs, by simp [hu, hf]⟩

theorem fillKind_record_ok {keys elements : Schema}
    (h : fillKind (.record keys elements) transformer extension settings scope value = .ok filled) :
    ∃ input fs, value = .map input ∧ filled = .record keys.transformer? fs ∧
      List.Forall₂ (fun entry f => entry.1 = f.1 ∧
        (∃ path g, fillNode keys none (settings.at path) none (some (.string entry.1)) = .ok g) ∧
        ∃ path, fillNode elements extension (settings.at path) scope (some entry.2) = .ok f.2)
        input fs := by
  cases value with
  | map input =>
    simp only [fillKind] at h
    split at h
    · cases h
    · rename_i fs hf
      cases h
      exact ⟨input, fs, rfl, rfl, fillEntries_ok hf⟩
  | _ => simp at h

theorem exists_fillKind_record {keys elements : Schema} {entries : List (String × Value)}
    (hk : ∀ entry ∈ entries, ∀ path, ∃ f,
      fillNode keys none (settings.at path) none (some (.string entry.1)) = .ok f)
    (he : ∀ entry ∈ entries, ∀ path, ∃ f,
      fillNode elements extension (settings.at path) scope (some entry.2) = .ok f) :
    ∃ filled, fillKind (.record keys elements) transformer extension settings scope (.map entries) =
      .ok filled := by
  obtain ⟨fs, hf⟩ : ∃ fs, fillEntries (fun place key => fillNode keys none place none key)
    (fun place element => fillNode elements extension place scope element) settings entries =
      .ok fs := exists_fillEntries hk he
  exact ⟨.record keys.transformer? fs, by simp only [fillKind, hf]⟩

/-- The first member of a union to accept a value comes after members that do not. -/
theorem exists_first_of_fillFirst {members : List Schema}
    (h : fillFirst members extension settings scope value = some filled) :
    ∃ earlier member later, members = earlier ++ member :: later ∧
      (∀ other ∈ earlier, ∀ tree,
        fillNode other extension settings scope (some value) ≠ .ok tree) ∧
      fillNode member extension settings scope (some value) = .ok filled := by
  induction members with
  | nil => simp at h
  | cons first rest ih =>
    rw [fillFirst] at h
    split at h
    · rename_i hf
      cases h
      exact ⟨[], first, rest, rfl, List.forall_mem_nil _, hf⟩
    · rename_i e he
      obtain ⟨earlier, member, later, rfl, rejected, hf⟩ := ih h
      refine ⟨first :: earlier, member, later, rfl, List.forall_mem_cons.mpr ⟨fun tree ht => ?_,
        rejected⟩, hf⟩
      rw [he] at ht
      cases ht

theorem fillFirst_eq_some {members : List Schema}
    (h : fillFirst members extension settings scope value = some filled) :
    ∃ member ∈ members, fillNode member extension settings scope (some value) = .ok filled := by
  obtain ⟨earlier, member, later, rfl, -, hf⟩ := exists_first_of_fillFirst h
  exact ⟨member, List.mem_append_right _ List.mem_cons_self, hf⟩

theorem exists_fillFirst {members : List Schema} {member : Schema} (hm : member ∈ members)
    (h : ∃ filled, fillNode member extension settings scope (some value) = .ok filled) :
    ∃ filled, fillFirst members extension settings scope value = some filled := by
  induction members with
  | nil => cases hm
  | cons first rest ih =>
    rw [fillFirst]
    cases hf : fillNode first extension settings scope (some value) with
    | ok filled => exact ⟨filled, rfl⟩
    | error e =>
      rcases List.mem_cons.mp hm with rfl | hm
      · obtain ⟨filled, h⟩ := h
        rw [hf] at h
        cases h
      · exact ih hm

theorem fillKind_anyOf_ok_iff {members : List Schema} :
    fillKind (.anyOf members) transformer extension settings scope value = .ok filled ↔
      fillFirst members extension settings scope value = some filled := by
  rw [fillKind]
  cases fillFirst members extension settings scope value <;> simp

end Kinds

/-! ## Maps and items -/

/-- Whether only the key attributes are parsed: those of an item in key mode. -/
def Kind.keyOnly (kind : Kind Schema) (mode : Mode) : Bool :=
  kind.name == .item && mode == .key

/-- The attributes of a map or item that are parsed in a mode. -/
def Kind.parsed (kind : Kind Schema) (mode : Mode) (attributes : List (String × Schema)) :
    List (String × Schema) :=
  attributes.filter (fun entry => !kind.keyOnly mode || entry.2.isKey)

theorem Kind.keyOnly_eq_true_iff {kind : Kind Schema} {mode : Mode} :
    kind.keyOnly mode = true ↔ kind.name = .item ∧ mode = .key := by
  simp [keyOnly]

theorem Kind.parsed_sublist (kind : Kind Schema) (mode : Mode)
    (attributes : List (String × Schema)) : List.Sublist (kind.parsed mode attributes) attributes :=
  List.filter_sublist

theorem Kind.parsed_of_keyOnly {kind : Kind Schema} {mode : Mode} (h : kind.keyOnly mode = true)
    (attributes : List (String × Schema)) :
    kind.parsed mode attributes = attributes.filter fun entry => entry.2.isKey := by
  simp [parsed, h]

theorem Kind.parsed_of_not_keyOnly {kind : Kind Schema} {mode : Mode}
    (h : kind.keyOnly mode = false) (attributes : List (String × Schema)) :
    kind.parsed mode attributes = attributes := by
  simp [parsed, h]

/-- The attribute as the two passes see it. -/
def childOf (extension : Option Extension) (mode : Mode) (entry : String × Schema) : Child where
  name := entry.1
  stored := entry.2.storedName entry.1
  isKey := entry.2.isKey
  isLinked := (entry.2.link? mode).isSome
  fill settings scope input := fillNode entry.2 extension settings scope input

theorem fillChildren_eq (attributes : List (String × Schema)) (extension : Option Extension)
    (mode : Mode) :
    fillChildren attributes extension mode = attributes.map (childOf extension mode) := by
  induction attributes with
  | nil => rfl
  | cons entry rest ih => rw [fillChildren, List.map_cons, ih]; rfl

section Named

variable {kind : Kind Schema} {attributes : List (String × Schema)}
  {transformer : Option Transformer} {extension : Option Extension} {settings : Settings}
  {scope : Option LinkContext} {value : Value} {filled : Filled}

/-- Maps and items differ in how they are called in errors and in what is parsed in key mode. -/
theorem fillKind_attributes_eq (hk : kind.attributes? = some attributes) :
    fillKind kind transformer extension settings scope value =
      match value with
      | .map input =>
        fillAttributes (attributes.map (childOf extension settings.mode))
          (kind.keyOnly settings.mode) settings scope input
      | other => .error (.mismatch settings.path kind.name.text other.typeName) := by
  cases kind with
  | map _ =>
    cases hk
    cases value with
    | map input => rw [fillKind, fillChildren_eq]; rfl
    | _ => simp [Kind.name]
  | item _ =>
    cases hk
    cases value with
    | map input => rw [fillKind, fillChildren_eq]; rfl
    | _ => simp [Kind.name]
  | _ => cases hk

/-- The slot of an attribute, filled from what the input has under its name. -/
structure SlotOf (extension : Option Extension) (settings : Settings)
    (input : List (String × Value)) (entry : String × Schema) (slot : Slot Filled) : Prop where
  name : slot.name = entry.1
  stored : slot.stored = entry.2.storedName entry.1
  content : ∃ path context, fillNode entry.2 extension (settings.at path) (some context)
    (Entries.get? entry.1 input) = .ok slot.content

/-- Slots of attributes are called like the attributes. -/
theorem slot_names {input : List (String × Value)} {slots : List (Slot Filled)}
    (h : List.Forall₂ (SlotOf extension settings input) attributes slots) :
    slots.map Slot.name = Entries.names attributes :=
  map_eq_map_iff.mpr (h.flip.imp fun _ _ h => h.name)

theorem slot_storedNames {input : List (String × Value)} {slots : List (Slot Filled)}
    (h : List.Forall₂ (SlotOf extension settings input) attributes slots) :
    slots.map Slot.stored = attributes.map fun entry => entry.2.storedName entry.1 :=
  map_eq_map_iff.mpr (h.flip.imp fun _ _ h => h.stored)

theorem fillKind_attributes_ok (hk : kind.attributes? = some attributes)
    (h : fillKind kind transformer extension settings scope value = .ok filled) :
    ∃ input slots, value = .map input ∧ filled = .map slots ∧
      Entries.names input ⊆ Entries.names attributes ∧
        List.Forall₂ (SlotOf extension settings input) (kind.parsed settings.mode attributes)
          slots := by
  rw [fillKind_attributes_eq hk] at h
  split at h
  · rename_i input
    obtain ⟨hu, slots, rfl, hs⟩ := fillAttributes_ok h
    rw [List.map_map] at hu
    rw [List.filter_map, List.forall₂_map_left_iff] at hs
    refine ⟨input, slots, rfl, rfl, hu, hs.imp fun entry slot h => ?_⟩
    obtain ⟨context, hc⟩ := h.content
    exact ⟨h.name, h.stored, _, context, hc.symm⟩
  · cases h

theorem exists_fillKind_attributes (hk : kind.attributes? = some attributes)
    {input : List (String × Value)} (hu : Entries.names input ⊆ Entries.names attributes)
    (hc : ∀ entry ∈ kind.parsed settings.mode attributes, ∀ path context, ∃ f,
      fillNode entry.2 extension (settings.at path) (some context)
        (Entries.get? entry.1 input) = .ok f) :
    ∃ filled, fillKind kind transformer extension settings scope (.map input) = .ok filled := by
  rw [fillKind_attributes_eq hk]
  refine exists_fillAttributes (by rwa [List.map_map]) fun child hm hp outcome hy => ?_
  obtain ⟨entry, he, rfl⟩ := List.mem_map.mp hm
  obtain ⟨context, rfl⟩ := hy
  exact hc entry (List.mem_filter.mpr ⟨he, hp⟩) _ context

end Named

end ItemShape
