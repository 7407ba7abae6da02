import ItemShape.Proofs.Parse.Comparison
import ItemShape.Proofs.Parse.Evaluate
import Mathlib.Data.Nat.Find

/-!
# ItemShape.Proofs.Parse.FirstError

Which error a map reports when several of its attributes fail. Attributes are filled in two passes,
but the passes do not show: the error is that of the first failing attribute in declaration order,
whichever pass comes to it (`first_error_of_attributes`).

* `Branch.outcome?`: the outcome of the attribute at a position, among the siblings it sees.
* `fillEach_eq_error`, `fillEach_eq_ok`: filling one attribute after the other ends with the first
  error among these outcomes, or with all of them.
* `Schema.Unlinked.unscoped`: where no link runs, as without filling, no attribute depends on its
  siblings.
-/

namespace ItemShape

/-! ## Outcomes by position -/

namespace Branch

/-- The outcome of the branch at a position, among the siblings it sees. A skipped one has none. -/
def outcome? (branches : List Branch) (i : Nat) : Option (Except SchemaError Filled) :=
  branches[i]?.bind fun branch =>
    if branch.role = .skipped then none
    else some (branch.fill (branch.visibleTo branches (branches.take i)))

/-- The slot of the branch at a position, if it was filled. -/
def slot? (branches : List Branch) (i : Nat) : Option (Slot Filled) :=
  branches[i]?.bind fun branch =>
    ((outcome? branches i).bind Except.toOption).map fun filled =>
      ⟨branch.name, branch.stored, filled⟩

/-- The slots of the filled branches, in declaration order. -/
def slots (branches : List Branch) : List (Slot Filled) :=
  (List.range branches.length).filterMap (slot? branches)

section

variable {all earlier later : List Branch} {branch : Branch}

theorem outcome?_eq (hall : all = earlier ++ branch :: later) :
    outcome? all earlier.length =
      if branch.role = .skipped then none
      else some (branch.fill (branch.visibleTo all earlier)) := by
  simp [outcome?, hall]

theorem slot?_eq (hall : all = earlier ++ branch :: later) :
    slot? all earlier.length =
      ((outcome? all earlier.length).bind Except.toOption).map fun filled =>
        ⟨branch.name, branch.stored, filled⟩ := by
  simp [slot?, hall]

theorem outcome?_of_length_le {i : Nat} (h : all.length ≤ i) : outcome? all i = none := by
  simp [outcome?, List.getElem?_eq_none h]

end

theorem fillEach_eq_error {all earlier rest : List Branch} (hall : all = earlier ++ rest) {i : Nat}
    {e : SchemaError} (hi : earlier.length ≤ i) (he : outcome? all i = some (.error e))
    (first : ∀ j, earlier.length ≤ j → j < i → ∀ e', outcome? all j ≠ some (.error e')) :
    fillEach all earlier rest = .error e := by
  induction rest generalizing earlier with
  | nil =>
    rw [List.append_nil] at hall
    rw [outcome?_of_length_le (by rwa [hall])] at he
    cases he
  | cons branch rest ih =>
    have hall' : all = earlier ++ [branch] ++ rest := by simp [hall]
    have hnow := outcome?_eq hall
    rw [fillEach]
    by_cases heq : i = earlier.length
    · subst heq
      rw [he] at hnow
      by_cases hs : branch.role = .skipped
      · rw [if_pos hs] at hnow
        cases hnow
      · rw [if_neg hs] at hnow
        rw [if_neg hs, ← Option.some.inj hnow]
        rfl
    · have hi' : (earlier ++ [branch]).length ≤ i := by
        rw [List.length_append, List.length_singleton]
        omega
      have first' : ∀ j, (earlier ++ [branch]).length ≤ j → j < i → ∀ e',
          outcome? all j ≠ some (.error e') := by
        intro j hj
        rw [List.length_append, List.length_singleton] at hj
        exact first j (by omega)
      rw [ih hall' hi' first']
      by_cases hs : branch.role = .skipped
      · rw [if_pos hs]
      · rw [if_neg hs] at hnow ⊢
        cases hf : branch.fill (branch.visibleTo all earlier) with
        | error e' =>
          rw [hf] at hnow
          exact absurd hnow (first _ (Nat.le_refl _) (by omega) e')
        | ok filled => rfl

theorem fillEach_eq_ok {all earlier rest : List Branch} (hall : all = earlier ++ rest)
    (none_fails : ∀ i, earlier.length ≤ i → ∀ e, outcome? all i ≠ some (.error e)) :
    fillEach all earlier rest =
      .ok ((List.range' earlier.length rest.length).filterMap (slot? all)) := by
  induction rest generalizing earlier with
  | nil => rfl
  | cons branch rest ih =>
    have hall' : all = earlier ++ [branch] ++ rest := by simp [hall]
    have hlength : (earlier ++ [branch]).length = earlier.length + 1 := by simp
    have hnow := outcome?_eq hall
    have hslot := slot?_eq hall
    have ih := ih hall' fun i hi => none_fails i (by omega)
    rw [hlength] at ih
    rw [fillEach, List.length_cons, List.range'_succ, List.filterMap_cons, ih, hslot]
    by_cases hs : branch.role = .skipped
    · rw [if_pos hs] at hnow ⊢
      rw [hnow]
      rfl
    · rw [if_neg hs] at hnow ⊢
      rw [hnow]
      cases hf : branch.fill (branch.visibleTo all earlier) with
      | error e =>
        rw [hf] at hnow
        exact absurd hnow (none_fails _ (Nat.le_refl _) e)
      | ok filled => rfl

end Branch

/-! ## Without filling -/

/-- The branch of a child; where nothing is filled, no child is put off. -/
def Child.branchIn (keyOnly : Bool) (settings : Settings) (scope : Option LinkContext)
    (input : List (String × Value)) (child : Child) : Branch :=
  { child with isLinked := settings.fill && child.isLinked }.branch keyOnly settings scope input

/-- The child is filled alike in every context. -/
def Child.Unscoped (settings : Settings) (child : Child) : Prop :=
  ∀ path context context' raw,
    child.fill (settings.at path) context raw = child.fill (settings.at path) context' raw

section Unfilled

variable {keyOnly : Bool} {settings : Settings} {scope : Option LinkContext}
  {input : List (String × Value)}

theorem fillDeferred_eq_fillEach_of_not_fill (hfill : settings.fill = false) {children : List Child}
    (unscoped : ∀ child ∈ children, child.Unscoped settings) (all earlier : List Branch)
    (seen seen' : List (String × Value)) :
    fillDeferred settings scope (fillDirect keyOnly settings scope input children seen).1 seen' =
      Branch.fillEach all earlier
        (children.map (Child.branchIn keyOnly settings scope input)) := by
  induction children generalizing earlier with
  | nil => rfl
  | cons child rest ih =>
    rw [List.forall_mem_cons] at unscoped
    rw [List.map_cons, Branch.fillEach]
    simp only [fillDirect, hfill, Bool.and_false, Bool.false_and, Bool.false_eq_true, if_false]
    by_cases hs : (keyOnly && !child.isKey) = true
    · have hrole : (child.branchIn keyOnly settings scope input).role = .skipped := by
        simp [Child.branchIn, Child.branch, Role.of, hs]
      rw [if_pos hs, if_pos hrole]
      simp only [fillDeferred]
      exact ih unscoped.2 _
    · have hrole : (child.branchIn keyOnly settings scope input).role ≠ .skipped := by
        simp [Child.branchIn, Child.branch, Role.of, hs, hfill]
      have hnow : (child.branchIn keyOnly settings scope input).fill
          ((child.branchIn keyOnly settings scope input).visibleTo all earlier) =
            child.fill (settings.at (settings.path.member child.name))
              (some (LinkContext.nested scope seen)) (Entries.get? child.name input) :=
        unscoped.1 _ _ _ _
      rw [if_neg hs, if_neg hrole, fillDeferred_done, ih unscoped.2, hnow]
      rfl

theorem fillAttributes_eq_fillMap_of_not_fill (hfill : settings.fill = false)
    {children : List Child} (unscoped : ∀ child ∈ children, child.Unscoped settings) :
    fillAttributes children keyOnly settings scope input =
      Branch.fillMap (children.map (Child.branchIn keyOnly settings scope input)) settings
        input := by
  refine fillAttributes_eq_fillMap_of_slots (by rw [List.map_map]; rfl) ?_
  exact fillDeferred_eq_fillEach_of_not_fill hfill unscoped _ [] [] _

end Unfilled

/-- The attributes of a map or item as branches, each with its outcome among some siblings. Links
put an absent attribute off only where absent values are filled. -/
def Kind.branches (kind : Kind Schema) (attributes : List (String × Schema))
    (extension : Option Extension) (settings : Settings) (scope : Option LinkContext)
    (input : List (String × Value)) : List Branch :=
  attributes.map fun entry =>
    { name := entry.1
      stored := entry.2.storedName entry.1
      role := .of (kind.keyOnly settings.mode && !entry.2.isKey) (Entries.get? entry.1 input)
        (settings.fill && (entry.2.link? settings.mode).isSome)
      raw := Entries.get? entry.1 input
      fill := fun siblings =>
        fillNode entry.2 extension (settings.at (settings.path.member entry.1))
          (some (LinkContext.nested scope siblings)) (Entries.get? entry.1 input) }

theorem Kind.branches_eq (kind : Kind Schema) (attributes : List (String × Schema))
    (extension : Option Extension) (settings : Settings) (scope : Option LinkContext)
    (input : List (String × Value)) :
    kind.branches attributes extension settings scope input =
      (attributes.map (childOf extension settings.mode)).map
        (Child.branchIn (kind.keyOnly settings.mode) settings scope input) := by
  rw [List.map_map]
  rfl

/-- The schema is filled alike in every context. -/
def Schema.Unscoped (schema : Schema) (settings : Settings) : Prop :=
  ∀ extension path scope scope' input,
    fillNode schema extension (settings.at path) scope input =
      fillNode schema extension (settings.at path) scope' input

/-- One parse in two contexts. -/
def Comparison.contexts (settings : Settings) : Comparison where
  toScopes := .any
  error := Eq
  tree := Eq
  settings s s' := s = s' ∧ ∃ path, s = settings.at path
  mode_eq h := congrArg Settings.mode h.1
  fill_eq h := congrArg Settings.fill h.1
  extend h segment := by
    obtain ⟨rfl, path, rfl⟩ := h
    exact ⟨rfl, path.extend segment, rfl⟩
  fails h reason := by rw [h.1]
  value h := congrArg Filled.value? h
  absent := rfl
  scalar _ _ := rfl
  list h := by
    rw [List.forall₂_eq_eq_eq] at h
    rw [h]
  set h := by
    rw [List.forall₂_eq_eq_eq] at h
    rw [h]
  map h := by rw [Slot.rel_eq_iff.mp h]
  record _ _ _ h := by rw [Entries.rel_eq_iff.mp h]

theorem Comparison.contexts_aligns (settings : Settings) (extension : Option Extension) :
    (contexts settings).Aligns extension := by
  rintro schema s _ input ⟨rfl, -⟩
  cases Extension.consult extension schema s input with
  | unextended given => exact .unextended given
  | extended parser =>
    refine .extended ?_
    cases parser.next.1.getD (.ok none) with
    | error e => exact .error rfl
    | ok value => exact .ok rfl

/-- No link of the schema runs: nothing is filled, or no node has one for the mode. -/
def Schema.Unlinked (schema : Schema) (settings : Settings) : Prop :=
  settings.fill = false ∨ schema.Everywhere fun node => node.link? settings.mode = none

theorem Schema.Unlinked.unscoped {schema : Schema} {settings : Settings}
    (h : schema.Unlinked settings) : schema.Unscoped settings := by
  have resolves : schema.Everywhere (Comparison.contexts settings).Resolves := by
    rintro ⟨props, kind⟩ hn s _ scope scope' given ⟨rfl, path, rfl⟩ -
    cases given with
    | some v => rfl
    | none =>
      rcases h with hfill | hlinks
      · simp [resolved, Settings.at, hfill]
      · have hlink : props.links.get? settings.mode = none := hlinks _ hn
        simp [resolved, resolveMissing, Settings.at, Schema.props, hlink]
  intro extension path scope scope' input
  have aligns := Comparison.contexts_aligns settings extension
  exact (Comparison.fills resolves extension aligns _ _ _ _ _ ⟨rfl, path, rfl⟩ trivial).eq

/-! ## Maps and items -/

/-- The attributes of a map are filled one after the other, each among the siblings it sees. -/
theorem fillKind_eq_fillMap {kind : Kind Schema} {attributes : List (String × Schema)}
    (hk : kind.attributes? = some attributes) (hd : Entries.Distinct attributes)
    {transformer : Option Transformer} {extension : Option Extension} {settings : Settings}
    {scope : Option LinkContext} (input : List (String × Value)) :
    fillKind kind transformer extension settings scope (.map input) =
      Branch.fillMap (kind.branches attributes extension settings scope input) settings input := by
  cases hfill : settings.fill with
  | false =>
    have unscoped : ∀ child ∈ attributes.map (childOf extension settings.mode),
        child.Unscoped settings := by
      intro child hc path context context' raw
      obtain ⟨entry, -, rfl⟩ := List.mem_map.mp hc
      have unlinked : entry.2.Unlinked settings := .inl hfill
      exact unlinked.unscoped extension path context context' raw
    rw [fillKind_attributes_eq hk, Kind.branches_eq]
    exact fillAttributes_eq_fillMap_of_not_fill hfill unscoped
  | true =>
    have hbranch : Child.branchIn (kind.keyOnly settings.mode) settings scope input =
        Child.branch (kind.keyOnly settings.mode) settings scope input := by
      funext child
      simp only [Child.branchIn, hfill, Bool.true_and]
    rw [fillKind_attributes_eq hk, Kind.branches_eq, hbranch]
    exact fillAttributes_eq_fillMap hfill (by rwa [List.map_map])

theorem Branch.fillMap_of_declared {branches : List Branch} {input : List (String × Value)}
    (hu : Entries.names input ⊆ branches.map Branch.name) (settings : Settings) :
    fillMap branches settings input = (fillEach branches [] branches).map .map := by
  have hnone : (Entries.names input).find?
      (fun name => !branches.any fun branch => branch.name == name) = none := by
    refine List.find?_eq_none.mpr fun name hn => ?_
    obtain ⟨branch, hm, rfl⟩ := List.mem_map.mp (hu hn)
    simpa using ⟨branch, hm, rfl⟩
  rw [fillMap, hnone]

/-- The error of a map is the first one among the outcomes of its attributes, in declaration order,
whichever pass comes to it; where none of them fails, their slots follow in that order. -/
theorem first_error_of_attributes {schema : Schema} {attributes : List (String × Schema)}
    (hb : schema.Built) (ha : schema.attributes? = some attributes) (extension : Option Extension)
    (settings : Settings) (scope : Option LinkContext) {input : List (String × Value)}
    (hu : Entries.names input ⊆ Entries.names attributes) :
    let outcome? := Branch.outcome?
      (schema.kind.branches attributes extension settings scope input)
    let result := fillKind schema.kind schema.transformer? extension settings scope (.map input)
    ((∃ e, result = .error e) ↔ ∃ i e, outcome? i = some (.error e)) ∧
      (∀ i e, outcome? i = some (.error e) → (∀ j < i, ∀ e', outcome? j ≠ some (.error e')) →
        result = .error e) ∧
      ((∀ i e, outcome? i ≠ some (.error e)) → result =
        .ok (.map (Branch.slots
          (schema.kind.branches attributes extension settings scope input)))) := by
  intro outcome? result
  let branches := schema.kind.branches attributes extension settings scope input
  obtain ⟨props, kind⟩ := schema
  have hk : kind.attributes? = some attributes := ha
  have hd : Entries.Distinct attributes := hb.wellFormed.distinct ha
  have hnames : branches.map Branch.name = Entries.names attributes := List.map_map
  have hresult : result = (Branch.fillEach branches [] branches).map .map := by
    rw [← Branch.fillMap_of_declared (by rwa [hnames]) settings]
    exact fillKind_eq_fillMap hk hd input
  have hall : branches = [] ++ branches := rfl
  have failed : ∀ i e, outcome? i = some (.error e) →
      (∀ j < i, ∀ e', outcome? j ≠ some (.error e')) → result = .error e := by
    intro i e he first
    have herror : Branch.fillEach branches [] branches = .error e :=
      Branch.fillEach_eq_error hall (Nat.zero_le i) he fun j _ hj => first j hj
    rw [hresult, herror]
    rfl
  have filled : (∀ i e, outcome? i ≠ some (.error e)) →
      result = .ok (.map (Branch.slots branches)) := by
    intro none_fails
    have hok : Branch.fillEach branches [] branches = .ok (Branch.slots branches) := by
      rw [Branch.slots, List.range_eq_range']
      exact Branch.fillEach_eq_ok hall fun i _ => none_fails i
    rw [hresult, hok]
    rfl
  refine ⟨⟨?fails, ?reports⟩, failed, filled⟩
  case fails =>
    rintro ⟨e, he⟩
    by_contra h
    have hok := filled fun i e' hi => h ⟨i, e', hi⟩
    rw [he] at hok
    cases hok
  case reports =>
    rintro ⟨i, e, he⟩
    -- The first position that fails.
    classical
    have hex : ∃ i e, outcome? i = some (.error e) := ⟨i, e, he⟩
    obtain ⟨e, he⟩ := Nat.find_spec hex
    exact ⟨e, failed _ e he fun j hj e' hj' => Nat.find_min hex hj ⟨e', hj'⟩⟩

/-- A link that finds nothing fails in the second pass, before a number that is none fails in the
first one: the link is declared first. -/
theorem first_error_of_attributes_forward_link :
    let schema := Schema.ofKind (.map
      [("copy", (Schema.scalar .string).linkIn .put fun context => context.get? "name"),
        ("count", .scalar .number), ("name", (Schema.scalar .string).makeOptional)])
    let settings : Settings := ⟨.put, true, false, .root⟩
    fillKind schema.kind schema.transformer? none settings none
      (.map [("count", .string "many")]) = .error (.missing (ValuePath.root.member "copy")) := by
  intro schema settings
  have built : schema.Built := by
    refine .map (fun entry he => ?_) (rfl : Schema.map?
      [("copy", (Schema.scalar .string).linkIn .put fun context => context.get? "name"),
        ("count", .scalar .number), ("name", (Schema.scalar .string).makeOptional)] = _)
    simp only [List.mem_cons, List.not_mem_nil, or_false] at he
    rcases he with rfl | rfl | rfl
    · exact .withProps (.scalar .string) fun props =>
        { props with links := props.links.set .put fun context => context.get? "name" }
    · exact .scalar .number
    · exact .withProps (.scalar .string) fun props => { props with required := .never }
  have declared : Entries.names [("count", Value.string "many")] ⊆ ["copy", "count", "name"] := by
    decide
  obtain ⟨-, failed, -⟩ := first_error_of_attributes built rfl none settings none declared
  exact failed 0 _ rfl fun j hj => absurd hj (Nat.not_lt_zero j)

end ItemShape
