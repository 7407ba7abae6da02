import ItemShape.Proofs.Parse.Fill
import Mathlib.Data.List.Induction

/-!
# ItemShape.Proofs.Parse.Evaluate

What a link sees. `evaluate` is the first step with filling and without an extension, written down
by what is visible where:

* the attributes of a map or item are `Branch`es: skipped, deferred or direct ones;
* a direct branch sees what the direct and skipped branches before it show, a deferred one sees
  what all of these show, and the deferred branches before it (`visibleTo`);
* what a branch sees is put before what the map itself sees (`Frames`), and nothing else is.

`fillAttributes_eq_fillMap` says this of the two passes over the attributes of one map,
`fillNode_evaluates` of a whole parse.
-/

namespace ItemShape

/-- The members seen in the enclosing maps, nearest map first. -/
abbrev Frames : Type :=
  List (List (String × Value))

/-- At the root there is no map, and no context. -/
def Frames.context? : Frames → Option LinkContext
  | [] => none
  | siblings :: enclosing => some ⟨siblings, enclosing⟩

inductive Role where
  | skipped
  | deferred
  | direct
  deriving DecidableEq

def Role.of (skipped : Bool) (raw : Option Value) (linked : Bool) : Role :=
  if skipped then .skipped
  else if raw.isNone && linked then .deferred
  else .direct

theorem Role.of_eq_skipped_iff {skipped : Bool} {raw : Option Value} {linked : Bool} :
    Role.of skipped raw linked = .skipped ↔ skipped = true := by
  cases skipped with
  | true => simp [Role.of]
  | false => cases h : raw.isNone && linked <;> simp [Role.of, h]

/-- An attribute with what the input has for it; `fill` is its outcome among some siblings. -/
structure Branch where
  name : String
  stored : String
  role : Role
  raw : Option Value
  fill : List (String × Value) → Except SchemaError Filled

namespace Branch

/-- The value a branch shows to others once its pass has come to it, if it has one. -/
def shown (pass : Role) (seen : List (String × Value)) (branch : Branch) : Option Value :=
  match branch.role, pass with
  | .skipped, .direct => branch.raw
  | .direct, .direct | .deferred, .deferred => outcomeValue? (branch.fill seen)
  | _, _ => none

/-- What is seen after a pass over some branches. -/
def siblings (pass : Role) (seen : List (String × Value)) (branches : List Branch) :
    List (String × Value) :=
  branches.foldl
    (fun seen branch => seen ++ (branch.shown pass seen).toList.map fun v => (branch.name, v)) seen

/-- What a branch sees, `earlier` being those declared before it. -/
def visibleTo (branch : Branch) (all earlier : List Branch) : List (String × Value) :=
  match branch.role with
  | .deferred => siblings .deferred (siblings .direct [] all) earlier
  | _ => siblings .direct [] earlier

/-- The branches that are not skipped, or the first error of them. -/
def fillEach (all earlier : List Branch) : List Branch → Except SchemaError (List (Slot Filled))
  | [] => .ok []
  | branch :: rest =>
    if branch.role = .skipped then fillEach all (earlier ++ [branch]) rest
    else
      (branch.fill (branch.visibleTo all earlier)).bind fun filled =>
        (fillEach all (earlier ++ [branch]) rest).map fun others =>
          ⟨branch.name, branch.stored, filled⟩ :: others

/-- A map of declared names, every branch in the sight of its siblings. -/
def fillMap (branches : List Branch) (settings : Settings) (input : List (String × Value)) :
    Except SchemaError Filled :=
  match (Entries.names input).find? (fun name => !branches.any (fun branch => branch.name == name))
    with
  | some name =>
    .error (.mismatch (settings.path.member name) "declared attribute" "undeclared attribute")
  | none => (fillEach branches [] branches).map .map

end Branch

/-- The value of an absent attribute: from its link among the frames, else its default. -/
def absentValue (props : Props) (mode : Mode) (frames : Frames) : Option Value :=
  ((props.links.get? mode).bind fun link => frames.context?.bind link).or
    ((props.defaults.get? mode).map Default.resolve)

mutual

def evaluate : Schema → Settings → Frames → Option Value → Except SchemaError Filled
  | .mk props kind, settings, frames, input =>
    match input.or (absentValue props settings.mode frames) with
    | none =>
      if props.required.isRequired settings.mode then .error (.missing settings.path)
      else .ok .absent
    | some value =>
      (evaluateKind kind props.transformer settings frames value).bind fun filled =>
        (checkFilled props kind.name settings filled).map fun _ => filled

def evaluateKind : Kind Schema → Option Transformer → Settings → Frames → Value →
    Except SchemaError Filled
  | .scalar kind, transformer, settings, _, value =>
    if scalarMatches kind value then .ok (.scalar transformer value)
    else .error (.mismatch settings.path kind.name value.typeName)
  | .list elements, _, settings, frames, .list items =>
    (fillItems (fun place item => evaluate elements place frames item) settings 0 items).map .list
  | .set elements, _, settings, frames, .list members =>
    if Value.hasDuplicates members then
      .error (.mismatch settings.path "set of unique members" "duplicate members")
    else (fillMembers (fun member => evaluate elements settings frames member) members).map .set
  | .map attributes, _, settings, frames, .map input =>
    Branch.fillMap (branches attributes false settings frames input) settings input
  | .item attributes, _, settings, frames, .map input =>
    Branch.fillMap (branches attributes (settings.mode == .key) settings frames input) settings
      input
  | .record keys elements, _, settings, frames, .map input =>
    (fillEntries (fun place key => evaluate keys place [] key)
      (fun place element => evaluate elements place frames element) settings input).map
        (.record keys.transformer?)
  | .anyOf members, _, settings, frames, value =>
    (evaluateFirst members settings frames value).elim
      (.error (.mismatch settings.path (memberNames members) value.typeName)) .ok
  | kind, _, settings, _, value =>
    .error (.mismatch settings.path kind.name.text value.typeName)

/-- In a whole item in key mode, what does not belong to the key is skipped. -/
def branches : List (String × Schema) → Bool → Settings → Frames → List (String × Value) →
    List Branch
  | [], _, _, _, _ => []
  | (name, schema) :: rest, keyOnly, settings, frames, input =>
    { name := name
      stored := schema.storedName name
      role := .of (keyOnly && !schema.isKey) (Entries.get? name input)
        (schema.link? settings.mode).isSome
      raw := Entries.get? name input
      fill := fun siblings => evaluate schema (settings.at (settings.path.member name))
        (siblings :: frames) (Entries.get? name input) } ::
      branches rest keyOnly settings frames input

def evaluateFirst : List Schema → Settings → Frames → Value → Option Filled
  | [], _, _, _ => none
  | member :: rest, settings, frames, value =>
    (evaluate member settings frames (some value)).toOption.or
      (evaluateFirst rest settings frames value)

end

/-! ## The two passes over one map -/

/-- The branch of a child. -/
def Child.branch (keyOnly : Bool) (settings : Settings) (scope : Option LinkContext)
    (input : List (String × Value)) (child : Child) : Branch where
  name := child.name
  stored := child.stored
  role := .of (keyOnly && !child.isKey) (Entries.get? child.name input) child.isLinked
  raw := Entries.get? child.name input
  fill siblings := child.fill (settings.at (settings.path.member child.name))
    (some (LinkContext.nested scope siblings)) (Entries.get? child.name input)

namespace Branch

theorem shown_deferred_of_ne {branch : Branch} (hr : branch.role ≠ .deferred)
    (seen : List (String × Value)) : branch.shown .deferred seen = none := by
  unfold shown
  cases h : branch.role with
  | deferred => exact absurd h hr
  | skipped => rfl
  | direct => rfl

theorem siblings_append (pass : Role) (seen : List (String × Value)) (earlier : List Branch)
    (branch : Branch) : siblings pass seen (earlier ++ [branch]) =
      siblings pass seen earlier ++
        (branch.shown pass (siblings pass seen earlier)).toList.map fun v => (branch.name, v) := by
  simp [siblings, List.foldl_append]

theorem mem_names_siblings {pass : Role} {seen : List (String × Value)} {branches : List Branch}
    {name : String} (h : name ∈ Entries.names (siblings pass seen branches)) :
    name ∈ Entries.names seen ∨ ∃ branch ∈ branches, branch.name = name ∧
      (branch.role = pass ∨ branch.role = .skipped ∧ pass = .direct) := by
  induction branches using List.reverseRecOn with
  | nil => exact .inl h
  | append_singleton earlier branch ih =>
    rw [siblings_append, Entries.names_append, List.mem_append] at h
    rcases h with h | h
    · exact (ih h).imp_right fun ⟨other, hm, ho⟩ => ⟨other, by simp [hm], ho⟩
    · refine .inr ⟨branch, by simp, ?_⟩
      obtain ⟨v, hv⟩ := Entries.mem_names.mp h
      simp only [List.mem_map, Option.mem_toList, Prod.mk.injEq] at hv
      obtain ⟨_, hs, hn, _⟩ := hv
      refine ⟨hn, ?_⟩
      simp only [shown] at hs
      split at hs <;> simp_all

theorem name_notMem_siblings {earlier later : List Branch} {branch : Branch}
    (hd : ((earlier ++ branch :: later).map name).Nodup) (pass : Role)
    (seen : List (String × Value)) (hs : branch.name ∉ Entries.names seen) :
    branch.name ∉ Entries.names (siblings pass seen earlier) := by
  intro h
  rcases mem_names_siblings h with h | ⟨other, hm, hn, _⟩
  · exact hs h
  · rw [List.map_append, List.nodup_append] at hd
    exact hd.2.2 _ (List.mem_map_of_mem hm) _ (List.mem_map_of_mem List.mem_cons_self) hn

theorem deferred_notMem_siblings {branches : List Branch} {branch : Branch}
    (hd : (branches.map name).Nodup) (hm : branch ∈ branches) (hr : branch.role = .deferred) :
    branch.name ∉ Entries.names (siblings .direct [] branches) := by
  intro h
  rcases mem_names_siblings h with h | ⟨other, ho, hn, hrole⟩
  · cases h
  · cases List.inj_on_of_nodup_map hd ho hm hn
    simp [hr] at hrole

end Branch

theorem recordSibling_of_notMem {siblings : List (String × Value)} {name : String}
    (h : name ∉ Entries.names siblings) (value : Option Value) :
    recordSibling siblings name value = siblings ++ value.toList.map fun v => (name, v) := by
  cases value with
  | none => simp [recordSibling]
  | some v => simp [recordSibling, Entries.insert_of_not_mem h]

section Passes

variable {keyOnly : Bool} {settings : Settings} {scope : Option LinkContext}
  {input : List (String × Value)}

theorem fillDirect_cons (hfill : settings.fill = true) {child : Child} {rest : List Child}
    {seen : List (String × Value)} (hn : child.name ∉ Entries.names seen) :
    fillDirect keyOnly settings scope input (child :: rest) seen =
      let branch := child.branch keyOnly settings scope input
      let attempt :=
        match branch.role with
        | .skipped => .skipped
        | .deferred => .deferred
        | .direct => .done (branch.fill seen)
      let others := fillDirect keyOnly settings scope input rest
        (seen ++ (branch.shown .direct seen).toList.map fun v => (branch.name, v))
      ((child, attempt) :: others.1, others.2) := by
  simp only [fillDirect, hfill, if_true, recordSibling_of_notMem hn, Child.branch, Role.of,
    Branch.shown, Bool.and_true]
  by_cases hs : (keyOnly && !child.isKey) = true
  · simp [hs]
  · by_cases hl : ((Entries.get? child.name input).isNone && child.isLinked) = true
    · simp [hs, hl]
    · simp [hs, hl]

theorem fillDeferred_deferred {child : Child} {rest : List (Child × Attempt)}
    {siblings : List (String × Value)}
    (hr : (child.branch keyOnly settings scope input).role = .deferred) :
    fillDeferred settings scope ((child, .deferred) :: rest) siblings =
      ((child.branch keyOnly settings scope input).fill siblings).bind fun filled =>
        (fillDeferred settings scope rest (recordSibling siblings child.name filled.value?)).map
          fun others => ⟨child.name, child.stored, filled⟩ :: others := by
  have hraw : Entries.get? child.name input = none := by
    simp only [Child.branch, Role.of] at hr
    split at hr
    · cases hr
    · split at hr
      · rename_i hl
        simp only [Bool.and_eq_true, Option.isNone_iff_eq_none] at hl
        exact hl.1
      · cases hr
  rw [fillDeferred_putOff]
  simp only [Child.branch, hraw]

theorem fillDirect_siblings (hfill : settings.fill = true) {all earlier : List Branch}
    {children : List Child}
    (hall : all = earlier ++ children.map (Child.branch keyOnly settings scope input))
    (hd : (all.map Branch.name).Nodup) :
    (fillDirect keyOnly settings scope input children (Branch.siblings .direct [] earlier)).2 =
      Branch.siblings .direct [] all := by
  induction children generalizing earlier with
  | nil =>
    rw [hall, List.map_nil, List.append_nil]
    rfl
  | cons child rest ih =>
    rw [List.map_cons] at hall
    have hn : child.name ∉ Entries.names (Branch.siblings .direct [] earlier) :=
      Branch.name_notMem_siblings (hall ▸ hd) .direct [] List.not_mem_nil
    have hall' : all = earlier ++ [child.branch keyOnly settings scope input] ++
        rest.map (Child.branch keyOnly settings scope input) := by simp [hall]
    rw [fillDirect_cons hfill hn]
    dsimp only
    rw [← ih hall', Branch.siblings_append]

/-- The second pass, after the first one, fills every branch in the sight of its siblings. -/
theorem fillDeferred_eq_fillEach (hfill : settings.fill = true) {all earlier : List Branch}
    {children : List Child}
    (hall : all = earlier ++ children.map (Child.branch keyOnly settings scope input))
    (hd : (all.map Branch.name).Nodup) :
    fillDeferred settings scope
        (fillDirect keyOnly settings scope input children (Branch.siblings .direct [] earlier)).1
        (Branch.siblings .deferred (Branch.siblings .direct [] all) earlier) =
      Branch.fillEach all earlier (children.map (Child.branch keyOnly settings scope input)) := by
  induction children generalizing earlier with
  | nil => rfl
  | cons child rest ih =>
    rw [List.map_cons] at hall ⊢
    let branch := child.branch keyOnly settings scope input
    have hn : child.name ∉ Entries.names (Branch.siblings .direct [] earlier) :=
      Branch.name_notMem_siblings (hall ▸ hd) .direct [] List.not_mem_nil
    have hall' : all = earlier ++ [branch] ++
        rest.map (Child.branch keyOnly settings scope input) := by simp [hall, branch]
    have ih := ih hall'
    rw [Branch.siblings_append, Branch.siblings_append] at ih
    rw [fillDirect_cons hfill hn, Branch.fillEach, Branch.visibleTo]
    dsimp only
    change _ = if branch.role = .skipped then _ else _
    -- Only a deferred branch is filled in the second pass; the others left their outcome, or
    -- nothing, in the first one, and show nothing to those deferred after them.
    cases hr : branch.role with
    | skipped =>
      rw [Branch.shown_deferred_of_ne (by simp [hr]), Option.toList_none, List.map_nil,
        List.append_nil] at ih
      rw [if_pos rfl]
      simp only [fillDeferred]
      exact ih
    | deferred =>
      have hnow : branch.shown .direct (Branch.siblings .direct [] earlier) = none := by
        simp [Branch.shown, hr]
      have hfresh : child.name ∉ Entries.names
          (Branch.siblings .deferred (Branch.siblings .direct [] all) earlier) := by
        refine Branch.name_notMem_siblings (hall ▸ hd) .deferred _ ?_
        exact Branch.deferred_notMem_siblings hd (by simp [hall]) hr
      rw [hnow] at ih ⊢
      rw [if_neg (by simp), fillDeferred_deferred hr]
      cases hf : branch.fill
          (Branch.siblings .deferred (Branch.siblings .direct [] all) earlier) with
      | error e => rfl
      | ok filled =>
        have hlater : branch.shown .deferred (Branch.siblings .deferred
            (Branch.siblings .direct [] all) earlier) = filled.value? := by
          simp [Branch.shown, hr, hf, outcomeValue?]
        rw [hlater] at ih
        simp only [Except.bind, recordSibling_of_notMem hfresh]
        exact congrArg _ ih
    | direct =>
      rw [Branch.shown_deferred_of_ne (by simp [hr]), Option.toList_none, List.map_nil,
        List.append_nil] at ih
      rw [if_neg (by simp), fillDeferred_done, ← ih]
      rfl

/-- A map with no undeclared entries is filled as far as its two passes are. -/
theorem fillAttributes_eq_fillMap_of_slots {children : List Child} {branches : List Branch}
    (hnames : branches.map Branch.name = children.map Child.name)
    (hslots : fillDeferred settings scope
      (fillDirect keyOnly settings scope input children []).1
      (fillDirect keyOnly settings scope input children []).2 =
        Branch.fillEach branches [] branches) :
    fillAttributes children keyOnly settings scope input =
      Branch.fillMap branches settings input := by
  have hany : ∀ name, children.any (fun child => child.name == name) =
      branches.any (fun branch => branch.name == name) := by
    intro name
    have h := congrArg (fun names => names.any (fun other => other == name)) hnames
    simp only [List.any_map] at h
    exact h.symm
  simp only [fillAttributes, undeclared?, hany, Branch.fillMap, hslots]
  cases (Entries.names input).find? fun name => !branches.any fun branch => branch.name == name with
  | some name => rfl
  | none => cases Branch.fillEach branches [] branches <;> rfl

/-- The two passes over the attributes of a map fill each of them in the sight of its siblings. -/
theorem fillAttributes_eq_fillMap (hfill : settings.fill = true) {children : List Child}
    (hd : (children.map Child.name).Nodup) :
    fillAttributes children keyOnly settings scope input =
      Branch.fillMap (children.map (Child.branch keyOnly settings scope input)) settings input := by
  let branches := children.map (Child.branch keyOnly settings scope input)
  have hd' : (branches.map Branch.name).Nodup := by rwa [List.map_map]
  have hall : branches = [] ++ children.map (Child.branch keyOnly settings scope input) := rfl
  have hseen : (fillDirect keyOnly settings scope input children []).2 =
      Branch.siblings .direct [] branches := fillDirect_siblings hfill hall hd'
  refine fillAttributes_eq_fillMap_of_slots (by rw [List.map_map]; rfl) ?_
  rw [hseen]
  exact fillDeferred_eq_fillEach hfill hall hd'

end Passes

/-! ## A whole parse -/

section Congruence

variable {settings : Settings}

theorem fillItems_congr {f g : Settings → Option Value → Except SchemaError Filled}
    (h : ∀ path input, f (settings.at path) input = g (settings.at path) input) (position : Nat)
    (items : List Value) :
    fillItems f settings position items = fillItems g settings position items := by
  induction items generalizing position with
  | nil => rfl
  | cons item rest ih => rw [fillItems, fillItems, h, ih]

theorem fillEntries_congr {f g f' g' : Settings → Option Value → Except SchemaError Filled}
    (h : ∀ path input, f (settings.at path) input = g (settings.at path) input)
    (h' : ∀ path input, f' (settings.at path) input = g' (settings.at path) input)
    (entries : List (String × Value)) :
    fillEntries f f' settings entries = fillEntries g g' settings entries := by
  induction entries with
  | nil => rfl
  | cons entry rest ih =>
    obtain ⟨key, element⟩ := entry
    rw [fillEntries, fillEntries, h, h', ih]

end Congruence

/-- Filling the schema is evaluating it, wherever it stands. -/
def Schema.Evaluates (schema : Schema) (settings : Settings) : Prop :=
  ∀ path (frames : Frames) input,
    fillNode schema none (settings.at path) frames.context? input =
      evaluate schema (settings.at path) frames input

theorem fillFirst_eq_evaluateFirst {members : List Schema} {settings : Settings} {frames : Frames}
    {v : Value} (h : ∀ member ∈ members, member.Evaluates settings) :
    fillFirst members none settings frames.context? v =
      evaluateFirst members settings frames v := by
  induction members with
  | nil => simp only [fillFirst, evaluateFirst]
  | cons member rest ih =>
    rw [List.forall_mem_cons] at h
    have hm : fillNode member none settings frames.context? (some v) =
        evaluate member settings frames (some v) := h.1 settings.path frames (some v)
    rw [fillFirst, evaluateFirst, hm]
    cases evaluate member settings frames (some v) with
    | ok filled => rfl
    | error e => exact ih h.2

theorem map_branch_eq_branches {attributes : List (String × Schema)} {keyOnly : Bool}
    {settings : Settings} {frames : Frames} {input : List (String × Value)}
    (h : ∀ entry ∈ attributes, Schema.Evaluates entry.2 settings) :
    (attributes.map (childOf none settings.mode)).map
        (Child.branch keyOnly settings frames.context? input) =
      branches attributes keyOnly settings frames input := by
  induction attributes with
  | nil => simp only [List.map_nil, branches]
  | cons entry rest ih =>
    rw [List.forall_mem_cons] at h
    have hscope : ∀ siblings, some (LinkContext.nested frames.context? siblings) =
        Frames.context? (siblings :: frames) := by
      intro siblings
      cases frames <;> rfl
    rw [List.map_cons, List.map_cons, ih h.2, branches]
    congr 1
    simp only [Child.branch, childOf, hscope]
    congr 1
    funext siblings
    exact h.1 _ (siblings :: frames) _

theorem fillKind_eq_evaluateKind {props : Props} {kind : Kind Schema}
    (wf : (Schema.mk props kind).WellFormed) {transformer : Option Transformer}
    {settings : Settings} {frames : Frames} {v : Value} (hfill : settings.fill = true)
    (each : ∀ schema ∈ kind.children, schema.Evaluates settings) :
    fillKind kind transformer none settings frames.context? v =
      evaluateKind kind transformer settings frames v := by
  have fit := wf.root
  have named : ∀ attributes, kind.attributes? = some attributes →
      Entries.Distinct attributes → ∀ input,
        fillAttributes (attributes.map (childOf none settings.mode)) (kind.keyOnly settings.mode)
            settings frames.context? input =
          Branch.fillMap (branches attributes (kind.keyOnly settings.mode) settings frames input)
            settings input := by
    intro attributes hk hd input
    rw [fillAttributes_eq_fillMap hfill (by rwa [List.map_map]), map_branch_eq_branches]
    exact fun entry he => each entry.2 (Kind.mem_children hk he)
  cases kind with
  | scalar kind => rw [fillKind, evaluateKind]
  | set elements =>
    have helements : ∀ member, fillNode elements none settings frames.context? member =
        evaluate elements settings frames member :=
      fun member => each elements List.mem_cons_self settings.path frames member
    cases v with
    | list members =>
      simp only [fillKind, evaluateKind, helements]
      cases fillMembers (fun member => evaluate elements settings frames member) members <;> rfl
    | _ => rfl
  | list elements =>
    cases v with
    | list items =>
      have hitems : fillItems (fun place item => fillNode elements none place frames.context? item)
          settings 0 items =
            fillItems (fun place item => evaluate elements place frames item) settings 0 items :=
        fillItems_congr (fun path item => each elements List.mem_cons_self path frames item) 0 items
      simp only [fillKind, evaluateKind, hitems]
      cases fillItems (fun place item => evaluate elements place frames item) settings 0 items <;>
        rfl
    | _ => rfl
  | record keys elements =>
    cases v with
    | map input =>
      have hentries : fillEntries (fun place key => fillNode keys none place none key)
          (fun place element => fillNode elements none place frames.context? element) settings
          input =
            fillEntries (fun place key => evaluate keys place [] key)
              (fun place element => evaluate elements place frames element) settings input :=
        fillEntries_congr (fun path key => each keys List.mem_cons_self path [] key)
          (fun path element => each elements (by simp [Kind.children]) path frames element) input
      simp only [fillKind, evaluateKind, hentries]
      cases fillEntries (fun place key => evaluate keys place [] key)
        (fun place element => evaluate elements place frames element) settings input <;> rfl
    | _ => rfl
  | anyOf members =>
    have hfirst : fillFirst members none settings frames.context? v =
        evaluateFirst members settings frames v := fillFirst_eq_evaluateFirst each
    rw [fillKind, evaluateKind, hfirst]
    cases evaluateFirst members settings frames v <;> rfl
  | map attributes =>
    cases v with
    | map input =>
      rw [fillKind, evaluateKind, fillChildren_eq]
      exact named attributes rfl fit.1 input
    | _ => rfl
  | item attributes =>
    cases v with
    | map input =>
      rw [fillKind, evaluateKind, fillChildren_eq]
      exact named attributes rfl fit.1 input
    | _ => rfl

theorem fillNode_evaluates {schema : Schema} (wf : schema.WellFormed) {settings : Settings}
    (hfill : settings.fill = true) : schema.Evaluates settings := by
  induction schema using Schema.induct generalizing settings with
  | node props kind ih =>
    intro path frames input
    have hresolved : resolved props (settings.at path) frames.context? input =
        input.or (absentValue props (settings.at path).mode frames) := by
      cases input with
      | some v => rfl
      | none =>
        simp only [resolved, Settings.at, hfill, if_true, resolveMissing, absentValue,
          Option.none_or]
        cases props.links.get? settings.mode with
        | none => rfl
        | some link =>
          cases frames.context? with
          | none => rfl
          | some context => cases h : link context <;> simp [h]
    have hkind : ∀ v, fillKind kind props.transformer none (settings.at path) frames.context? v =
        evaluateKind kind props.transformer (settings.at path) frames v :=
      fun v => fillKind_eq_evaluateKind wf hfill fun schema hm => ih schema hm (wf.child hm) hfill
    rw [fillNode_unextended rfl, hresolved, evaluate]
    cases input.or (absentValue props (settings.at path).mode frames) with
    | none => rfl
    | some v =>
      simp only [hkind]
      cases evaluateKind kind props.transformer (settings.at path) frames v with
      | error e => rfl
      | ok filled =>
        dsimp only [Except.bind]
        cases checkFilled props kind.name (settings.at path) filled <;> rfl

/-- Filling is evaluation by what is visible, and the root of a context is its outermost frame. -/
theorem fill_eq_evaluate {schema : Schema} (hb : schema.Built) {settings : Settings}
    (hfill : settings.fill = true) (input : Option Value) :
    fillNode schema none settings none input = evaluate schema settings [] input ∧
      ∀ (frames : Frames) context, frames.context? = some context →
        some context.root = frames.getLast? := by
  refine ⟨fillNode_evaluates hb.wellFormed hfill settings.path [] input, ?_⟩
  intro frames context h
  cases frames with
  | nil => cases h
  | cons siblings enclosing =>
    cases h
    cases enclosing with
    | nil => rfl
    | cons frame rest =>
      rw [LinkContext.root, List.getLast?_cons_cons, List.getLast?_cons, Option.getD_some]

/-- A link that reads a sibling declared after it, and copies what it has been filled with. -/
theorem fill_eq_evaluate_forward_link :
    let schema := Schema.ofKind (.map
      [("copy", (Schema.scalar .string).linkIn .put fun context => context.get? "name"),
        ("name", .scalar .string)])
    let settings : Settings := ⟨.put, true, false, .root⟩
    let input := some (Value.map [("name", .string "n")])
    (fillNode schema none settings none input = evaluate schema settings [] input ∧
      ∀ (frames : Frames) context, frames.context? = some context →
        some context.root = frames.getLast?) ∧
      (evaluate schema settings [] input).map Filled.value? =
        .ok (some (.map [("copy", .string "n"), ("name", .string "n")])) := by
  intro schema settings input
  have built : schema.Built := by
    refine .map (fun entry he => ?_) (rfl : Schema.map?
      [("copy", (Schema.scalar .string).linkIn .put fun context => context.get? "name"),
        ("name", .scalar .string)] = _)
    rcases List.mem_cons.mp he with rfl | he
    · exact .withProps (.scalar .string) fun props =>
        { props with links := props.links.set .put fun context => context.get? "name" }
    · cases List.mem_singleton.mp he
      exact .scalar .string
  have evaluated := fill_eq_evaluate built (rfl : settings.fill = true) input
  refine ⟨evaluated, ?_⟩
  rw [← evaluated.1]
  rfl

end ItemShape
