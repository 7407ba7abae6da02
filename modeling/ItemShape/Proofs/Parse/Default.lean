import ItemShape.Proofs.Parse.FirstError
import ItemShape.Proofs.Parse.Operations

/-!
# ItemShape.Proofs.Parse.Default

A default counts as if it had been given. For an attribute that is absent and has a default for the
mode, the steps of a parse are those of the input with the default in its place
(`steps_of_resolved_default`).

This holds of every default that the extension of update mode does not take over
(`Update.takesOver`). An operation that stands in the input is taken over before the attribute is
filled; one that stands in the default comes too late for that, and only a union may still accept it.

* `Branch.ActsAlike`: branches that are filled alike and show the same to others.
* `fillNode_default`: the same for one attribute, by itself.
-/

namespace ItemShape

/-! ## Branches that act alike -/

namespace Branch

/-- The branches are filled alike and show the same to others. What the input has for a branch
counts by itself only where the branch is skipped. -/
structure ActsAlike (branch other : Branch) : Prop where
  name : branch.name = other.name
  stored : branch.stored = other.stored
  role : branch.role = other.role
  fill : branch.fill = other.fill
  raw (h : branch.role = .skipped) : branch.raw = other.raw

theorem ActsAlike.refl (branch : Branch) : branch.ActsAlike branch :=
  ⟨rfl, rfl, rfl, rfl, fun _ => rfl⟩

theorem ActsAlike.shown_eq {branch other : Branch} (h : branch.ActsAlike other) (pass : Role)
    (seen : List (String × Value)) : branch.shown pass seen = other.shown pass seen := by
  unfold shown
  rw [← h.role, h.fill]
  cases hr : branch.role with
  | skipped => rw [h.raw hr]
  | _ => cases pass <;> rfl

variable {all all' earlier earlier' branches others : List Branch}

theorem siblings_alike (h : List.Forall₂ ActsAlike branches others) (pass : Role)
    (seen : List (String × Value)) : siblings pass seen branches = siblings pass seen others := by
  induction h generalizing seen with
  | nil => rfl
  | cons h _ ih =>
    simp only [siblings, List.foldl_cons, h.shown_eq, h.name]
    exact ih _

theorem ActsAlike.visibleTo_eq {branch other : Branch} (h : branch.ActsAlike other)
    (hall : List.Forall₂ ActsAlike all all') (hearlier : List.Forall₂ ActsAlike earlier earlier') :
    branch.visibleTo all earlier = other.visibleTo all' earlier' := by
  unfold visibleTo
  simp only [← h.role, siblings_alike hall, siblings_alike hearlier]

theorem fillEach_alike (hall : List.Forall₂ ActsAlike all all')
    (hearlier : List.Forall₂ ActsAlike earlier earlier')
    (h : List.Forall₂ ActsAlike branches others) :
    fillEach all earlier branches = fillEach all' earlier' others := by
  induction h generalizing earlier earlier' with
  | nil => rfl
  | @cons branch other _ _ hfirst _ ih =>
    have hearlier' : List.Forall₂ ActsAlike (earlier ++ [branch]) (earlier' ++ [other]) :=
      List.rel_append hearlier (.cons hfirst .nil)
    rw [fillEach, fillEach, ← hfirst.role, ← hfirst.name, ← hfirst.stored, hfirst.fill,
      hfirst.visibleTo_eq hall hearlier, ih hearlier']

theorem fillMap_alike (h : List.Forall₂ ActsAlike branches others)
    {input input' : List (String × Value)}
    (undeclared : (Entries.names input).find?
        (fun name => !branches.any fun branch => branch.name == name) =
      (Entries.names input').find? (fun name => !others.any fun branch => branch.name == name))
    (settings : Settings) : fillMap branches settings input = fillMap others settings input' := by
  rw [fillMap, fillMap, undeclared, fillEach_alike h .nil h]

end Branch

/-! ## One attribute -/

/-- The extension of update mode takes over a node of this schema that is given this value. -/
def Update.takesOver (schema : Schema) (v : Value) : Bool :=
  match v with
  | .op operation =>
    match operation, schema.kind with
    | .add _, .set _ | .add _, .scalar .number | .delete _, .set _ => true
    | .set _, .map _ | .set _, .record _ _ | .set _, .list _ => true
    | .remove, _ | .get _ _, _ => true
    | _, _ => false
  | _ => false

theorem Update.consult_of_not_takesOver {schema : Schema} {v : Value}
    (h : takesOver schema v = false) (settings : Settings) :
    consult schema settings (some v) = .unextended (some v) := by
  obtain ⟨props, kind⟩ := schema
  cases v with
  | op operation =>
    have refused : action? (.mk props kind) settings operation = none := by
      cases operation with
      | add operand =>
        cases kind with
        | scalar kind =>
          cases kind with
          | number => cases h
          | _ => rfl
        | set elements => cases h
        | _ => rfl
      | delete operand =>
        cases kind with
        | set elements => cases h
        | _ => rfl
      | set payload =>
        cases kind with
        | map attributes => cases h
        | record keys elements => cases h
        | list elements => cases h
        | _ => rfl
      | remove => cases h
      | get source fallback => cases h
    simp only [consult, refused]
  | _ => rfl

section Node

variable {child : Schema} {extension : Option Extension} {settings : Settings} {default : Default}

theorem resolved_default (hfill : settings.fill = true)
    (hdefault : child.default? settings.mode = some default)
    (hlink : child.link? settings.mode = none) (scope : Option LinkContext) :
    resolved child.props settings scope none = some default.resolve := by
  have hdefault : child.props.defaults.get? settings.mode = some default := hdefault
  have hlink : child.props.links.get? settings.mode = none := hlink
  simp [resolved, resolveMissing, hfill, hdefault, hlink]

/-- An absent attribute is filled as if its default had been given, unless the extension takes the
default over. -/
theorem fillNode_default (hfill : settings.fill = true)
    (hdefault : child.default? settings.mode = some default)
    (hlink : child.link? settings.mode = none)
    (absent : Extension.consult extension child settings none = .unextended none)
    (given : Extension.consult extension child settings (some default.resolve) =
      .unextended (some default.resolve)) (scope : Option LinkContext) :
    fillNode child extension settings scope none =
      fillNode child extension settings scope (some default.resolve) := by
  have hresolved := resolved_default hfill hdefault hlink scope
  obtain ⟨props, kind⟩ := child
  rw [fillNode_unextended absent, fillNode_unextended given]
  simp only [Schema.props] at hresolved
  simp only [hresolved]
  rfl

/-- An operation that the extension does not get is refused by every kind but a union. -/
theorem fillNode_operation_default (hfill : settings.fill = true)
    (hdefault : child.default? settings.mode = some default)
    (hlink : child.link? settings.mode = none)
    (absent : Extension.consult extension child settings none = .unextended none)
    {operation : Operation Value} (hop : default.resolve = .op operation)
    (hu : ∀ members, child.kind ≠ .anyOf members) (scope : Option LinkContext) :
    fillNode child extension settings scope none =
      .error (.mismatch settings.path child.kindName.text operation.tag.typeName) := by
  have hresolved := resolved_default hfill hdefault hlink scope
  rw [hop] at hresolved
  obtain ⟨props, kind⟩ := child
  have hu : ∀ members, kind ≠ .anyOf members := hu
  simp only [Schema.props] at hresolved
  rw [fillNode_unextended absent]
  simp only [hresolved]
  rw [Update.fillKind_operation hu]
  rfl

end Node

/-! ## Maps and items -/

section Attributes

variable {kind : Kind Schema} {attributes : List (String × Schema)} {name : String}
  {child : Schema} {extension : Option Extension} {settings : Settings}
  {scope : Option LinkContext} {default : Default} {input : List (String × Value)}

theorem Kind.branches_default (hd : Entries.Distinct attributes) (hm : (name, child) ∈ attributes)
    (hmode : settings.mode ≠ .key) (hlink : child.link? settings.mode = none)
    (habsent : Entries.get? name input = none)
    (same : ∀ path scope, fillNode child extension (settings.at path) scope none =
      fillNode child extension (settings.at path) scope (some default.resolve)) :
    List.Forall₂ Branch.ActsAlike (kind.branches attributes extension settings scope input)
      (kind.branches attributes extension settings scope
        (Entries.insert name default.resolve input)) := by
  have parsed : kind.keyOnly settings.mode = false :=
    Bool.eq_false_iff.mpr fun h => hmode (Kind.keyOnly_eq_true_iff.mp h).2
  rw [Kind.branches, Kind.branches, List.forall₂_map_left_iff, List.forall₂_map_right_iff,
    List.forall₂_same]
  rintro ⟨other, schema⟩ he
  by_cases hn : other = name
  · subst hn
    cases Option.some.inj ((Entries.get?_of_mem hd he).symm.trans (Entries.get?_of_mem hd hm))
    refine ⟨rfl, rfl, ?_, ?_, ?_⟩
    · simp [hlink, Role.of]
    · funext siblings
      simp only [habsent, Entries.get?_insert_self]
      exact same _ _
    · simp [Role.of_eq_skipped_iff, parsed]
  · simp only [Entries.get?_insert_ne (Ne.symm hn)]
    exact .refl _

theorem fillKind_default {transformer : Option Transformer}
    (hk : kind.attributes? = some attributes) (hd : Entries.Distinct attributes)
    (hm : (name, child) ∈ attributes) (hmode : settings.mode ≠ .key)
    (hlink : child.link? settings.mode = none) (habsent : name ∉ Entries.names input)
    (same : ∀ path scope, fillNode child extension (settings.at path) scope none =
      fillNode child extension (settings.at path) scope (some default.resolve)) :
    fillKind kind transformer extension settings scope (.map input) =
      fillKind kind transformer extension settings scope
        (.map (Entries.insert name default.resolve input)) := by
  have absent : Entries.get? name input = none := Entries.get?_eq_none_iff.mpr habsent
  have declared (entries : List (String × Value)) (n : String) :
      ((kind.branches attributes extension settings scope entries).any
        fun branch => branch.name == n) = attributes.any fun entry => entry.1 == n :=
    List.any_map
  have known : (attributes.any fun entry => entry.1 == name) = true :=
    List.any_eq_true.mpr ⟨_, hm, beq_self_eq_true name⟩
  have names : Entries.names (Entries.insert name default.resolve input) =
      Entries.names input ++ [name] := by
    rw [Entries.insert_of_not_mem habsent, Entries.names_append]
    rfl
  rw [fillKind_eq_fillMap hk hd, fillKind_eq_fillMap hk hd]
  refine Branch.fillMap_alike (Kind.branches_default hd hm hmode hlink absent same) ?_ settings
  simp only [declared, names, List.find?_append]
  simp [known]

theorem exists_fillKind_error {transformer : Option Transformer}
    (hk : kind.attributes? = some attributes) (hm : (name, child) ∈ attributes)
    (hmode : settings.mode ≠ .key) (habsent : name ∉ Entries.names input)
    (fails : ∀ path scope, ∃ e, fillNode child extension (settings.at path) scope none = .error e) :
    ∃ e, fillKind kind transformer extension settings scope (.map input) = .error e := by
  have parsed : kind.keyOnly settings.mode = false :=
    Bool.eq_false_iff.mpr fun h => hmode (Kind.keyOnly_eq_true_iff.mp h).2
  cases hf : fillKind kind transformer extension settings scope (.map input) with
  | error e => exact ⟨e, rfl⟩
  | ok filled =>
    obtain ⟨_, slots, hinput, -, -, hslots⟩ := fillKind_attributes_ok hk hf
    cases hinput
    rw [Kind.parsed_of_not_keyOnly parsed] at hslots
    obtain ⟨slot, -, hslot⟩ := exists_of_forall₂_left hslots (name, child) hm
    obtain ⟨path, context, hcontent⟩ := hslot.content
    obtain ⟨e, he⟩ := fails path (some context)
    rw [Entries.get?_eq_none_iff.mpr habsent, he] at hcontent
    cases hcontent

end Attributes

/-! ## Parsing -/

/-- An attribute that is absent and has a default, but no link, for the mode is treated as if the
default had been given: the steps are the same, unless the extension of update mode takes the default
over. If the default is an operation, the attribute is refused; only a union may accept it. -/
theorem steps_of_resolved_default {schema child : Schema} {attributes : List (String × Schema)}
    {name : String} {default : Default} {options : ParseOptions} {input : List (String × Value)}
    (hb : schema.Built) (ha : schema.attributes? = some attributes)
    (hm : (name, child) ∈ attributes) (hmode : options.mode = .put ∨ options.mode = .update)
    (hx : options.extension = options.mode.extension?) (hfill : options.fill = true)
    (hdefault : child.default? options.mode = some default)
    (hlink : child.link? options.mode = none) (habsent : name ∉ Entries.names input) :
    ((options.mode = .update → Update.takesOver child default.resolve = false) →
      (schema.start options (some (.map input))).trace =
        (schema.start options
          (some (.map (Entries.insert name default.resolve input)))).trace) ∧
      ∀ operation, default.resolve = .op operation → (∀ members, child.kind ≠ .anyOf members) →
        ∃ e, (schema.start options (some (.map input))).trace = [(.error e, true)] := by
  obtain ⟨props, kind⟩ := schema
  let settings := options.toSettings
  have hk : kind.attributes? = some attributes := ha
  have notKey : settings.mode ≠ .key := by
    intro (h : options.mode = .key)
    rcases hmode with hm | hm <;> rw [h] at hm <;> cases hm
  have known : options.extension = none ∨ options.extension = some Update.extension := by
    rcases hmode with hm | hm
    · exact .inl (by rw [hx, hm]; rfl)
    · exact .inr (by rw [hx, hm]; rfl)
  have absent (path : ValuePath) :
      Extension.consult options.extension child (settings.at path) none = .unextended none := by
    rcases known with h | h <;> rw [h] <;> rfl
  have map (entries : List (String × Value)) :
      Extension.consult options.extension (.mk props kind) settings (some (.map entries)) =
        .unextended (some (.map entries)) := consult_map known _ _ _
  unfold Schema.start start
  refine ⟨fun handed => ?same, fun operation hop hu => ?refused⟩
  case same =>
    have given (path : ValuePath) : Extension.consult options.extension child (settings.at path)
        (some default.resolve) = .unextended (some default.resolve) := by
      rcases hmode with hm | hm
      · rw [hx, hm]
        rfl
      · rw [hx, hm]
        exact Update.consult_of_not_takesOver (handed hm) _
    have same (path : ValuePath) (scope : Option LinkContext) :
        fillNode child options.extension (settings.at path) scope none =
          fillNode child options.extension (settings.at path) scope (some default.resolve) := by
      have hfill : (settings.at path).fill = true := hfill
      exact fillNode_default hfill hdefault hlink (absent path) (given path) scope
    have filled : fillNode (.mk props kind) options.extension settings none (some (.map input)) =
        fillNode (.mk props kind) options.extension settings none
          (some (.map (Entries.insert name default.resolve input))) := by
      rw [fillNode_unextended (map input), fillNode_unextended (map _)]
      simp only [resolved,
        fillKind_default hk (hb.wellFormed.distinct ha) hm notKey hlink habsent same]
    rw [filled]
  case refused =>
    have fails (path : ValuePath) (scope : Option LinkContext) :
        ∃ e, fillNode child options.extension (settings.at path) scope none = .error e := by
      have hfill : (settings.at path).fill = true := hfill
      exact ⟨_, fillNode_operation_default hfill hdefault hlink (absent path) hop hu scope⟩
    obtain ⟨e, he⟩ : ∃ e, fillKind kind props.transformer options.extension settings none
        (.map input) = .error e := exists_fillKind_error hk hm notKey habsent fails
    have filled : fillNode (.mk props kind) options.extension settings none (some (.map input)) =
        .error e := by
      rw [fillNode_unextended (map input)]
      simp only [resolved, he]
    refine ⟨e, ?_⟩
    rw [filled]
    rfl

/-- A map by default, with a link inside that looks outside, and with an operation inside. -/
theorem steps_of_resolved_default_nested_link :
    let text := (Schema.scalar .string).linkIn .update fun context => context.lookup? "name"
    let inner := [("text", text), ("tags", Schema.ofKind (.set (.scalar .string)))]
    let added := Value.map [("tags", .op (.add (.string "new")))]
    let label := (Schema.ofKind (.map inner)).defaultIn .update (.value added)
    let schema := Schema.ofKind (.map [("name", .scalar .string), ("label", label)])
    let options := ParseOptions.ofMode .update
    let input := [("name", Value.string "u")]
    (schema.Built ∧ Update.takesOver label added = false) ∧
      (schema.start options (some (.map input))).trace =
        (schema.start options (some (.map [("name", .string "u"), ("label", added)]))).trace ∧
      schema.FillsTo options (some (.map input)) (some (.map [("name", .string "u"),
        ("label", .map [("text", .string "u"), ("tags", .op (.add (.string "new")))])])) := by
  intro text inner added label schema options input
  have builtInner : (Schema.ofKind (.map inner)).Built := by
    refine .map (fun entry he => ?_) (rfl : Schema.map? inner = _)
    rcases List.mem_cons.mp he with rfl | he
    · exact .withProps (.scalar .string) fun props =>
        { props with links := props.links.set .update fun context => context.lookup? "name" }
    · cases List.mem_singleton.mp he
      exact .set (.scalar .string) rfl
  have built : schema.Built := by
    refine .map (fun entry he => ?_)
      (rfl : Schema.map? [("name", .scalar .string), ("label", label)] = _)
    rcases List.mem_cons.mp he with rfl | he
    · exact .scalar .string
    · cases List.mem_singleton.mp he
      exact .withProps builtInner fun props =>
        { props with defaults := props.defaults.set .update (.value added) }
  have declared : ("label", label) ∈ [("name", .scalar .string), ("label", label)] := by simp
  have default : label.default? .update = some (.value added) := rfl
  have absent : "label" ∉ Entries.names input := by decide
  have mode : options.mode = .put ∨ options.mode = .update := .inr rfl
  obtain ⟨steps, -⟩ :=
    steps_of_resolved_default built rfl declared mode rfl rfl default rfl absent
  exact ⟨⟨built, rfl⟩, steps fun _ => rfl, _, rfl⟩

/-- Where a default is not treated as if it had been given: an operation is refused as the default
of a set that accepts it as input. -/
theorem operation_default_refused :
    let added := Value.op (.add (.string "new"))
    let tags := (Schema.ofKind (.set (.scalar .string))).defaultIn .update (.value added)
    let schema := Schema.ofKind (.map [("tags", tags)])
    let options := ParseOptions.ofMode .update
    let given := Value.map (Entries.insert "tags" added [])
    (tags.default? .update = some (.value added) ∧ tags.link? .update = none) ∧
      (schema.start options (some (.map []))).trace =
        [(.error (.mismatch (ValuePath.root.member "tags") "set" "ADD operation"), true)] ∧
      (schema.start options (some given)).trace =
        [(.ok (some given), false), (.ok (some given), true)] ∧
      (schema.start options (some (.map []))).trace ≠ (schema.start options (some given)).trace := by
  intro added tags schema options given
  have refused : (schema.start options (some (.map []))).trace =
      [(.error (.mismatch (ValuePath.root.member "tags") "set" "ADD operation"), true)] := rfl
  have accepted : (schema.start options (some given)).trace =
      [(.ok (some given), false), (.ok (some given), true)] := rfl
  refine ⟨⟨rfl, rfl⟩, refused, accepted, ?_⟩
  rw [refused, accepted]
  simp

end ItemShape
