import ItemShape.Proofs.Parse.FirstError
import ItemShape.Proofs.Parse.Update

/-!
# ItemShape.Proofs.Parse.Unread

Defaults, links and validators that a parse does not read: those of other modes; without filling,
all defaults and links; and the default and the link of an attribute that is given. Replacing them
changes no step (`steps_of_replaced`).

* `Schema.Rel`: schemas of one shape, with related properties at every node.
* `Props.ReadAlike`: properties of which a parse reads the same.
* `Schema.FillsSame`: schemas that are filled alike in every context. A link also puts its
  attribute off, so that two maps are compared branch by branch (`Kind.branches_congr`).
-/

namespace ItemShape

/-! ## Schemas of one shape -/

/-- Attributes of one name. -/
inductive Attribute.Rel {α β : Type} (S : α → β → Prop) : String × α → String × β → Prop where
  | mk (name : String) {a : α} {b : β} (h : S a b) : Rel S (name, a) (name, b)

/-- Kinds of one shape, with related children. -/
inductive Kind.Rel {α β : Type} (S : α → β → Prop) : Kind α → Kind β → Prop where
  | scalar (kind : ScalarKind) : Rel S (.scalar kind) (.scalar kind)
  | set {elements : α} {elements' : β} (h : S elements elements') :
    Rel S (.set elements) (.set elements')
  | list {elements : α} {elements' : β} (h : S elements elements') :
    Rel S (.list elements) (.list elements')
  | map {attributes : List (String × α)} {others : List (String × β)}
    (h : List.Forall₂ (Attribute.Rel S) attributes others) : Rel S (.map attributes) (.map others)
  | record {keys elements : α} {keys' elements' : β} (hk : S keys keys')
    (he : S elements elements') : Rel S (.record keys elements) (.record keys' elements')
  | anyOf {members : List α} {others : List β} (h : List.Forall₂ S members others) :
    Rel S (.anyOf members) (.anyOf others)
  | item {attributes : List (String × α)} {others : List (String × β)}
    (h : List.Forall₂ (Attribute.Rel S) attributes others) : Rel S (.item attributes) (.item others)

/-- Schemas of one shape, with related properties at every node. -/
inductive Schema.Rel (R : Props → Props → Prop) : Schema → Schema → Prop where
  | mk {props props' : Props} {kind kind' : Kind Schema} (hp : R props props')
    (hk : Kind.Rel (Schema.Rel R) kind kind') : Rel R (.mk props kind) (.mk props' kind')

section Shapes

variable {α β : Type} {S T : α → β → Prop} {kind : Kind α} {kind' : Kind β}

theorem Kind.Rel.name_eq (h : kind.Rel S kind') : kind.name = kind'.name := by
  cases h <;> rfl

theorem Kind.Rel.refl {S : α → α → Prop} (h : ∀ a, S a a) (kind : Kind α) : kind.Rel S kind := by
  have entries (attributes : List (String × α)) :
      List.Forall₂ (Attribute.Rel S) attributes attributes :=
    List.forall₂_same.mpr fun entry _ => .mk entry.1 (h entry.2)
  cases kind with
  | scalar kind => exact .scalar kind
  | set elements => exact .set (h elements)
  | list elements => exact .list (h elements)
  | map attributes => exact .map (entries attributes)
  | record keys elements => exact .record (h keys) (h elements)
  | anyOf members => exact .anyOf (List.forall₂_same.mpr fun member _ => h member)
  | item attributes => exact .item (entries attributes)

theorem Kind.Rel.imp (h : kind.Rel S kind') (each : ∀ a ∈ kind.children, ∀ b, S a b → T a b) :
    kind.Rel T kind' := by
  have entries {attributes : List (String × α)} {others : List (String × β)}
      (each : ∀ a ∈ attributes.map Prod.snd, ∀ b, S a b → T a b)
      (h : List.Forall₂ (Attribute.Rel S) attributes others) :
      List.Forall₂ (Attribute.Rel T) attributes others := by
    refine forall₂_imp (fun entry he other _ hr => ?_) h
    cases hr with
    | mk name hr => exact .mk name (each _ (List.mem_map_of_mem he) _ hr)
  cases h with
  | scalar kind => exact .scalar kind
  | set h => exact .set (each _ List.mem_cons_self _ h)
  | list h => exact .list (each _ List.mem_cons_self _ h)
  | map h => exact .map (entries each h)
  | record hk he =>
    exact .record (each _ List.mem_cons_self _ hk)
      (each _ (List.mem_cons_of_mem _ List.mem_cons_self) _ he)
  | anyOf h => exact .anyOf (forall₂_imp (fun member hm other _ hr => each member hm other hr) h)
  | item h => exact .item (entries each h)

end Shapes

theorem Schema.Rel.imp {R R' : Props → Props → Prop} (h : ∀ props other, R props other →
    R' props other) {schema other : Schema} (hr : schema.Rel R other) : schema.Rel R' other := by
  induction schema using Schema.induct generalizing other with
  | node props kind ih =>
    cases hr with
    | mk hp hk => exact .mk (h _ _ hp) (hk.imp fun child hc _ => ih child hc)

/-! ## What is read -/

/-- Properties of which a parse in the mode reads the same: of defaults and links it reads nothing
unless it fills absent values. -/
structure Props.ReadAlike (mode : Mode) (fill : Bool) (props other : Props) : Prop where
  required : props.required = other.required
  key : props.key = other.key
  savedAs : props.savedAs = other.savedAs
  enumerated : props.enumerated = other.enumerated
  transformer : props.transformer = other.transformer
  validators : props.validators.get? mode = other.validators.get? mode
  defaults (hfill : fill = true) : props.defaults.get? mode = other.defaults.get? mode
  links (hfill : fill = true) : props.links.get? mode = other.links.get? mode

section Reading

variable {props props' : Props} {s : Settings} {scope : Option LinkContext}

/-- An operand is parsed without filling. -/
theorem Props.ReadAlike.unfilled {mode : Mode} {fill : Bool}
    (h : props.ReadAlike mode fill props') : props.ReadAlike mode false props' :=
  { h with
    defaults := fun hfill => by cases hfill
    links := fun hfill => by cases hfill }

theorem resolved_readAlike (h : props.ReadAlike s.mode s.fill props') (given : Option Value) :
    resolved props s scope given = resolved props' s scope given := by
  cases given with
  | some v => rfl
  | none =>
    cases hfill : s.fill with
    | false => simp [resolved, hfill]
    | true => simp only [resolved, resolveMissing, h.defaults hfill, h.links hfill]

theorem checkFilled_readAlike {fill : Bool} (h : props.ReadAlike s.mode fill props')
    (kind : KindName) (filled : Filled) :
    checkFilled props kind s filled = checkFilled props' kind s filled := by
  simp only [checkFilled, h.enumerated, h.validators]

end Reading

/-- The extension answers alike for schemas of which the same is read. -/
def AnswersAlike (extension : Option Extension) (s : Settings) : Prop :=
  ∀ schema other path input, schema.WellFormed → schema.Rel (Props.ReadAlike s.mode s.fill) other →
    Extension.consult extension schema (s.at path) input =
      Extension.consult extension other (s.at path) input

theorem answersAlike_none (s : Settings) : AnswersAlike none s :=
  fun _ _ _ _ _ _ => rfl

/-- The schemas are filled alike, in every context. -/
structure Schema.FillsSame (s : Settings) (schema other : Schema) : Prop where
  props : schema.props.ReadAlike s.mode s.fill other.props
  kindName : schema.kindName = other.kindName
  fill : ∀ extension, AnswersAlike extension s → ∀ path scope input,
    fillNode schema extension (s.at path) scope input =
      fillNode other extension (s.at path) scope input

/-! ## Kinds -/

/-- Attributes with one outcome among any siblings, and put off alike. -/
structure Attribute.FillsSame (extension : Option Extension) (s : Settings)
    (input : List (String × Value)) (entry other : String × Schema) : Prop where
  name : entry.1 = other.1
  stored : entry.2.storedName entry.1 = other.2.storedName other.1
  isKey : entry.2.isKey = other.2.isKey
  isLinked : Entries.get? entry.1 input = none →
    (s.fill && (entry.2.link? s.mode).isSome) = (s.fill && (other.2.link? s.mode).isSome)
  fill : ∀ path scope, fillNode entry.2 extension (s.at path) scope (Entries.get? entry.1 input) =
    fillNode other.2 extension (s.at path) scope (Entries.get? entry.1 input)

section Kinds

variable {kind kind' : Kind Schema} {transformer : Option Transformer}
  {extension : Option Extension} {s : Settings} {scope : Option LinkContext}

theorem Kind.branches_congr (hname : kind.name = kind'.name) {input : List (String × Value)}
    {attributes others : List (String × Schema)}
    (h : List.Forall₂ (Attribute.FillsSame extension s input) attributes others) :
    kind.branches attributes extension s scope input =
      kind'.branches others extension s scope input := by
  have keyOnly : kind.keyOnly s.mode = kind'.keyOnly s.mode := by simp only [Kind.keyOnly, hname]
  refine map_eq_map_iff.mpr (h.imp fun entry other h => ?_)
  obtain ⟨name, schema⟩ := entry
  obtain ⟨_, schema'⟩ := other
  obtain ⟨rfl, stored, isKey, isLinked, fill⟩ := h
  dsimp only at stored isKey isLinked fill ⊢
  have role (skipped : Bool) : Role.of skipped (Entries.get? name input)
        (s.fill && (schema.link? s.mode).isSome) =
      Role.of skipped (Entries.get? name input) (s.fill && (schema'.link? s.mode).isSome) := by
    cases hn : Entries.get? name input with
    | none => rw [isLinked hn]
    | some v => simp [Role.of]
  simp only [stored, isKey, keyOnly, role, fill]

/-- Maps and items whose attributes have one outcome each. -/
theorem fillKind_attributes_congr {attributes others : List (String × Schema)}
    (hk : kind.attributes? = some attributes) (hk' : kind'.attributes? = some others)
    (hname : kind.name = kind'.name) (hd : Entries.Distinct attributes)
    {input : List (String × Value)}
    (h : List.Forall₂ (Attribute.FillsSame extension s input) attributes others) :
    fillKind kind transformer extension s scope (.map input) =
      fillKind kind' transformer extension s scope (.map input) := by
  have names : Entries.names attributes = Entries.names others :=
    Entries.names_eq_of_forall₂ (h.imp fun _ _ h => h.name)
  have hd' : Entries.Distinct others := by
    rw [Entries.Distinct, ← names]
    exact hd
  rw [fillKind_eq_fillMap hk hd, fillKind_eq_fillMap hk' hd', Kind.branches_congr hname h]

theorem fillFirst_congr {members others : List Schema} (hx : AnswersAlike extension s)
    (h : List.Forall₂ (Schema.FillsSame s) members others) (v : Value) :
    fillFirst members extension s scope v = fillFirst others extension s scope v := by
  induction h with
  | nil => simp only [fillFirst]
  | @cons member other _ _ hfirst _ ih =>
    have first : fillNode member extension s scope (some v) =
        fillNode other extension s scope (some v) := hfirst.fill extension hx s.path scope (some v)
    rw [fillFirst, fillFirst, first, ih]

theorem memberNames_congr {members others : List Schema}
    (h : List.Forall₂ (Schema.FillsSame s) members others) :
    memberNames members = memberNames others := by
  have names : members.map (fun member => member.kindName.text) =
      others.map (fun member => member.kindName.text) :=
    map_eq_map_iff.mpr (h.imp fun member other h => by rw [h.kindName])
  rw [memberNames, memberNames, names]

theorem Attribute.Rel.fillsSame (hx : AnswersAlike extension s) (input : List (String × Value))
    {entry other : String × Schema} (h : Attribute.Rel (Schema.FillsSame s) entry other) :
    Attribute.FillsSame extension s input entry other := by
  cases h with
  | mk name h =>
    refine ⟨rfl, ?_, h.props.key, fun _ => ?_, fun path scope => h.fill extension hx path scope _⟩
    · simp only [Schema.storedName, h.props.savedAs]
    · cases hfill : s.fill with
      | false => rfl
      | true => simp only [Schema.link?, h.props.links hfill]

theorem fillKind_congr {props : Props} (wf : (Schema.mk props kind).WellFormed)
    (hx : AnswersAlike extension s) (h : kind.Rel (Schema.FillsSame s) kind') (v : Value) :
    fillKind kind transformer extension s scope v =
      fillKind kind' transformer extension s scope v := by
  have named {attributes others : List (String × Schema)} (hk : kind.attributes? = some attributes)
      (hk' : kind'.attributes? = some others)
      (ha : List.Forall₂ (Attribute.Rel (Schema.FillsSame s)) attributes others) :
      fillKind kind transformer extension s scope v =
        fillKind kind' transformer extension s scope v := by
    cases v with
    | map input =>
      exact fillKind_attributes_congr hk hk' h.name_eq (wf.distinct hk)
        (ha.imp fun _ _ hr => hr.fillsSame hx input)
    | _ => rw [fillKind_attributes_eq hk, fillKind_attributes_eq hk', h.name_eq]
  cases h with
  | scalar kind => rfl
  | @set elements elements' h =>
    have element (member : Option Value) : fillNode elements none s scope member =
        fillNode elements' none s scope member :=
      h.fill none (answersAlike_none s) s.path scope member
    cases v with
    | list members => simp only [fillKind, element]
    | _ => rfl
  | @list elements elements' h =>
    cases v with
    | list items =>
      have filled : ∀ position,
          fillItems (fun place item => fillNode elements extension place scope item) s position
            items =
          fillItems (fun place item => fillNode elements' extension place scope item) s position
            items :=
        fun position => fillItems_congr (fun path item => h.fill extension hx path scope item) _ _
      simp only [fillKind, filled]
    | _ => rfl
  | map h => exact named rfl rfl h
  | @record keys elements keys' elements' hk he =>
    cases v with
    | map input =>
      have filled : fillEntries (fun place key => fillNode keys none place none key)
          (fun place element => fillNode elements extension place scope element) s input =
        fillEntries (fun place key => fillNode keys' none place none key)
          (fun place element => fillNode elements' extension place scope element) s input :=
        fillEntries_congr (fun path key => hk.fill none (answersAlike_none s) path none key)
          (fun path element => he.fill extension hx path scope element) input
      have transformer : keys.transformer? = keys'.transformer? := hk.props.transformer
      simp only [fillKind, filled, transformer]
    | _ => rfl
  | anyOf h => simp only [fillKind, fillFirst_congr hx h, memberNames_congr h]
  | item h => exact named rfl rfl h

end Kinds

/-! ## Nodes -/

theorem Schema.Rel.fillsSame {s : Settings} {schema other : Schema} (wf : schema.WellFormed)
    (h : schema.Rel (Props.ReadAlike s.mode s.fill) other) : schema.FillsSame s other := by
  induction schema using Schema.induct generalizing s other with
  | node props kind ih =>
    cases h with
    | @mk _ props' _ kind' hp hk =>
      refine ⟨hp, hk.name_eq, fun extension hx path scope input => ?_⟩
      have consulted : Extension.consult extension (.mk props kind) (s.at path) input =
          Extension.consult extension (.mk props' kind') (s.at path) input :=
        hx _ _ path input wf (.mk hp hk)
      cases hc : Extension.consult extension (.mk props' kind') (s.at path) input with
      | extended parser => simp only [fillNode, consulted, hc]
      | unextended given =>
        have children : kind.Rel (Schema.FillsSame (s.at path)) kind' :=
          hk.imp fun child hm _ h => ih child hm (wf.child hm) h
        have hx' : AnswersAlike extension (s.at path) := hx
        have filled (v : Value) :
            fillKind kind props'.transformer extension (s.at path) scope v =
              fillKind kind' props'.transformer extension (s.at path) scope v :=
          fillKind_congr wf hx' children v
        have hp' : props.ReadAlike (s.at path).mode (s.at path).fill props' := hp
        rw [fillNode_unextended (consulted.trans hc), fillNode_unextended hc]
        simp only [resolved_readAlike hp', filled, checkFilled_readAlike hp', hp.required,
          hp.transformer, hk.name_eq]

/-! ## Operations -/

namespace Update

variable {s : Settings} {schema other : Schema}

/-- Operands are parsed alike against the schemas. -/
def OperandsAlike (s : Settings) (schema other : Schema) : Prop :=
  ∀ tag operand, startOperand schema s tag operand = startOperand other s tag operand

theorem operandsAlike (h : ∀ tag operand,
    fillNode schema none (operandSettings s tag) none (some operand) =
      fillNode other none (operandSettings s tag) none (some operand)) :
    OperandsAlike s schema other := by
  intro tag operand
  unfold startOperand start
  rw [h]

theorem operandsAlike_of_rel (wf : schema.WellFormed)
    (h : schema.Rel (Props.ReadAlike s.mode s.fill) other) : OperandsAlike s schema other := by
  refine operandsAlike fun tag operand => ?_
  have unfilled : schema.Rel (Props.ReadAlike s.mode false) other := h.imp fun _ _ h => h.unfilled
  have alike : schema.FillsSame (operandSettings s tag) other := unfilled.fillsSame wf
  exact alike.fill none (answersAlike_none _) _ none (some operand)

theorem setOperand_congr (h : OperandsAlike s schema other) (tag : OpTag) (operand : Value) :
    setOperand schema s tag operand = setOperand other s tag operand := by
  have start : startOperand schema s tag = startOperand other s tag := funext (h tag)
  cases operand <;> simp only [setOperand, start]

section

variable {props props' : Props} {kind kind' : Kind Schema}

/-- What an operation does depends on the operands of the node and of its elements. -/
theorem action?_congr (required : props.required = props'.required)
    (self : OperandsAlike s (.mk props kind) (.mk props' kind'))
    (hk : kind.Rel (OperandsAlike s) kind') (operation : Operation Value) :
    action? (.mk props kind) s operation = action? (.mk props' kind') s operation := by
  have start (tag : OpTag) : startOperand (.mk props kind) s tag =
      startOperand (.mk props' kind') s tag := funext (self tag)
  cases operation with
  | remove => simp only [action?, Schema.isRequired, Schema.props, required]
  | get source fallback => simp only [action?, start]
  | add operand =>
    cases hk with
    | scalar kind => cases kind <;> simp only [action?, start, Schema.kind]
    | set h => simp only [action?, Schema.kind, setOperand_congr h]
    | _ => rfl
  | delete operand =>
    cases hk with
    | set h => simp only [action?, Schema.kind, setOperand_congr h]
    | _ => rfl
  | set operand => cases hk <;> simp only [action?, Schema.kind, start]

theorem consult_congr (required : props.required = props'.required)
    (self : OperandsAlike s (.mk props kind) (.mk props' kind'))
    (hk : kind.Rel (OperandsAlike s) kind') (input : Option Value) :
    consult (.mk props kind) s input = consult (.mk props' kind') s input := by
  cases input with
  | none => rfl
  | some v =>
    cases v with
    | op operation => simp only [consult, action?_congr required self hk]
    | _ => rfl

end

end Update

theorem answersAlike_update (s : Settings) : AnswersAlike (some Update.extension) s := by
  intro schema other path input wf h
  have self : Update.OperandsAlike (s.at path) schema other := Update.operandsAlike_of_rel wf h
  cases h with
  | mk hp hk =>
    exact Update.consult_congr hp.required self
      (hk.imp fun child hc _ h => Update.operandsAlike_of_rel (wf.child hc) h) input

/-! ## A given value -/

section Given

variable {props props' : Props} {kind : Kind Schema} {extension : Option Extension} {s : Settings}
  {scope : Option LinkContext} {v : Value}

/-- The default and the link of a node are not read where a value is given. -/
theorem fillNode_some_congr (h : props.ReadAlike s.mode false props')
    (consulted : Extension.consult extension (.mk props kind) s (some v) =
      Extension.consult extension (.mk props' kind) s (some v))
    (handed : ∀ given, Extension.consult extension (.mk props' kind) s (some v) =
      .unextended given → given = some v) :
    fillNode (.mk props kind) extension s scope (some v) =
      fillNode (.mk props' kind) extension s scope (some v) := by
  cases hc : Extension.consult extension (.mk props' kind) s (some v) with
  | extended parser => simp only [fillNode, consulted, hc]
  | unextended given =>
    cases handed given hc
    rw [fillNode_unextended (consulted.trans hc), fillNode_unextended hc]
    simp only [resolved, checkFilled_readAlike h, h.transformer]

theorem fillNode_given (hx : extension = none ∨ extension = some Update.extension)
    (h : props.ReadAlike s.mode false props') :
    fillNode (.mk props kind) extension s scope (some v) =
      fillNode (.mk props' kind) extension s scope (some v) := by
  have unextended (settings : Settings) (hmode : settings.mode = s.mode)
      (scope : Option LinkContext) (v : Value) :
      fillNode (.mk props kind) none settings scope (some v) =
        fillNode (.mk props' kind) none settings scope (some v) := by
    rw [← hmode] at h
    refine fillNode_some_congr h rfl fun given hc => ?_
    cases hc
    rfl
  rcases hx with rfl | rfl
  · exact unextended s rfl scope v
  · have self : Update.OperandsAlike s (.mk props kind) (.mk props' kind) :=
      Update.operandsAlike fun tag operand =>
        unextended (Update.operandSettings s tag) rfl none operand
    have consulted : Update.consult (.mk props kind) s (some v) =
        Update.consult (.mk props' kind) s (some v) :=
      Update.consult_congr h.required self (Kind.Rel.refl (fun _ _ _ => rfl) kind) (some v)
    exact fillNode_some_congr h consulted fun given hc => (consult_unextended hc).1

end Given

/-! ## Parsing -/

/-- Properties that differ at most in what they have for other modes. -/
structure Props.SameIn (mode : Mode) (props other : Props) : Prop where
  rest : other = { props with
    defaults := other.defaults, links := other.links, validators := other.validators }
  defaults : props.defaults.get? mode = other.defaults.get? mode
  links : props.links.get? mode = other.links.get? mode
  validators : props.validators.get? mode = other.validators.get? mode

/-- Properties that differ at most in defaults and links. -/
def Props.SameUnfilled (props other : Props) : Prop :=
  other = { props with defaults := other.defaults, links := other.links }

theorem Props.SameIn.readAlike {mode : Mode} {props other : Props} (h : props.SameIn mode other)
    (fill : Bool) : props.ReadAlike mode fill other where
  required := (congrArg Props.required h.rest).symm
  key := (congrArg Props.key h.rest).symm
  savedAs := (congrArg Props.savedAs h.rest).symm
  enumerated := (congrArg Props.enumerated h.rest).symm
  transformer := (congrArg Props.transformer h.rest).symm
  validators := h.validators
  defaults _ := h.defaults
  links _ := h.links

theorem Props.SameUnfilled.readAlike {props other : Props} (h : props.SameUnfilled other)
    (mode : Mode) : props.ReadAlike mode false other where
  required := (congrArg Props.required h).symm
  key := (congrArg Props.key h).symm
  savedAs := (congrArg Props.savedAs h).symm
  enumerated := (congrArg Props.enumerated h).symm
  transformer := (congrArg Props.transformer h).symm
  validators := congrArg (fun props => props.validators.get? mode) h.symm
  defaults hfill := by cases hfill
  links hfill := by cases hfill

theorem answersAlike_of_options {extension : Option Extension}
    (hx : extension = none ∨ extension = some Update.extension) (s : Settings) :
    AnswersAlike extension s := by
  rcases hx with rfl | rfl
  · exact answersAlike_none s
  · exact answersAlike_update s

theorem Schema.Rel.start_eq {schema other : Schema} {options : ParseOptions}
    (hx : options.extension = none ∨ options.extension = some Update.extension)
    (wf : schema.WellFormed) (h : schema.Rel (Props.ReadAlike options.mode options.fill) other)
    (input : Option Value) : other.start options input = schema.start options input := by
  have alike : schema.FillsSame options.toSettings other :=
    Schema.Rel.fillsSame (s := options.toSettings) wf h
  have filled : fillNode schema options.extension options.toSettings none input =
      fillNode other options.extension options.toSettings none input :=
    alike.fill _ (answersAlike_of_options hx _) options.path none input
  unfold Schema.start ItemShape.start
  rw [filled]

/-- The default and the link of an attribute that the input supplies do not count. -/
theorem start_replaced {schema : Schema} {options : ParseOptions}
    (hx : options.extension = none ∨ options.extension = some Update.extension)
    (wf : schema.WellFormed) {build : List (String × Schema) → Kind Schema}
    (hbuild : build = .map ∨ build = .item) {earlier later : List (String × Schema)} {name : String}
    {child other : Schema} (hk : schema.kind = build (earlier ++ (name, child) :: later))
    (hchild : child.props.SameUnfilled other.props) (hkind : child.kind = other.kind)
    {input : List (String × Value)} {v : Value} (hv : Entries.get? name input = some v) :
    (Schema.mk schema.props (build (earlier ++ (name, other) :: later))).start options
        (some (.map input)) =
      schema.start options (some (.map input)) := by
  obtain ⟨props, kind⟩ := schema
  obtain ⟨childProps, childKind⟩ := child
  obtain ⟨otherProps, otherKind⟩ := other
  cases (hk : kind = _)
  cases (hkind : childKind = otherKind)
  let s := options.toSettings
  have attributes? (attributes : List (String × Schema)) :
      (build attributes).attributes? = some attributes := by
    rcases hbuild with rfl | rfl <;> rfl
  have kindName (attributes others : List (String × Schema)) :
      (build attributes).name = (build others).name := by
    rcases hbuild with rfl | rfl <;> rfl
  have same (attributes : List (String × Schema)) :
      List.Forall₂ (Attribute.FillsSame options.extension s input) attributes attributes :=
    List.forall₂_same.mpr fun _ _ => ⟨rfl, rfl, rfl, fun _ => rfl, fun _ _ => rfl⟩
  have read (settings : Settings) : childProps.ReadAlike settings.mode false otherProps :=
    Props.SameUnfilled.readAlike hchild settings.mode
  have replaced : Attribute.FillsSame options.extension s input (name, .mk childProps childKind)
      (name, .mk otherProps childKind) := by
    refine ⟨rfl, ?_, (read s).key, fun hn => ?_, fun path scope => ?_⟩
    · simp only [Schema.storedName, Schema.props, (read s).savedAs]
    · rw [hv] at hn
      cases hn
    · rw [hv]
      exact fillNode_given hx (read _)
  have filled : fillKind (build (earlier ++ (name, .mk childProps childKind) :: later))
        props.transformer options.extension s none (.map input) =
      fillKind (build (earlier ++ (name, .mk otherProps childKind) :: later)) props.transformer
        options.extension s none (.map input) :=
    fillKind_attributes_congr (attributes? _) (attributes? _) (kindName _ _)
      (wf.distinct (attributes? _)) (List.rel_append (same earlier) (.cons replaced (same later)))
  have root : fillNode (.mk props (build (earlier ++ (name, .mk otherProps childKind) :: later)))
        options.extension s none (some (.map input)) =
      fillNode (.mk props (build (earlier ++ (name, .mk childProps childKind) :: later)))
        options.extension s none (some (.map input)) := by
    rw [fillNode_unextended (consult_map hx _ s input),
      fillNode_unextended (consult_map hx _ s input)]
    simp only [resolved, filled, kindName _ (earlier ++ (name, .mk childProps childKind) :: later)]
  unfold Schema.start start
  rw [Schema.props, root]

/-- Replacing what a parse does not read changes no step: the defaults, links and validators of
other modes, at any depth; where nothing is filled, the defaults and links of all modes, at any
depth; and in a map or item the defaults and links of an attribute that the input supplies. -/
theorem steps_of_replaced {schema : Schema} {options : ParseOptions} (hb : schema.Built)
    (hx : options.extension = none ∨ options.extension = some Update.extension) :
    (∀ other, schema.Rel (Props.SameIn options.mode) other → ∀ input,
      (other.start options input).trace = (schema.start options input).trace) ∧
      (options.fill = false → ∀ other, schema.Rel Props.SameUnfilled other → ∀ input,
        (other.start options input).trace = (schema.start options input).trace) ∧
      ∀ build, build = Kind.map ∨ build = Kind.item → ∀ earlier name child later,
        schema.kind = build (earlier ++ (name, child) :: later) → ∀ defaults links input v,
          Entries.get? name input = some v →
            let replaced := child.withProps fun props =>
              { props with defaults := defaults, links := links }
            let other := Schema.mk schema.props (build (earlier ++ (name, replaced) :: later))
            (other.start options (some (.map input))).trace =
              (schema.start options (some (.map input))).trace := by
  have wf : schema.WellFormed := hb.wellFormed
  refine ⟨?otherModes, ?unfilled, ?supplied⟩
  case otherModes =>
    intro other h input
    rw [(h.imp fun _ _ h => h.readAlike options.fill).start_eq hx wf]
  case unfilled =>
    intro hfill other h input
    have read : schema.Rel (Props.ReadAlike options.mode options.fill) other := by
      rw [hfill]
      exact h.imp fun _ _ h => h.readAlike options.mode
    rw [read.start_eq hx wf]
  case supplied =>
    intro build hbuild earlier name child later hk defaults links input v hv replaced other
    have same : child.props.SameUnfilled replaced.props := rfl
    exact congrArg Parser.trace (start_replaced hx wf hbuild hk same rfl hv)

/-- A link is kept where another mode gets a default and a validator, and dropped where nothing is
filled or the attribute is supplied. -/
theorem steps_of_replaced_linked_copy :
    let plain := Schema.scalar .string
    let linked := plain.linkIn .put fun context => context.get? "name"
    let other := (linked.defaultIn .update (.value .null)).validateIn .key fun _ => .invalid none
    let schema (copy : Schema) := Schema.ofKind (.map [("copy", copy), ("name", plain)])
    let options := ParseOptions.ofMode .put
    let unfilled := { options with fill := false }
    let named := some (Value.map [("name", .string "n")])
    let supplied := some (Value.map [("copy", .string "c"), ("name", .string "n")])
    let filled := some (Value.map [("copy", .string "n"), ("name", .string "n")])
    (schema linked).Built ∧
      ((schema other).start options named).trace = [(.ok filled, false), (.ok filled, true)] ∧
      ((schema plain).start unfilled named).trace = ((schema linked).start unfilled named).trace ∧
      ((schema plain).start options supplied).trace =
        [(.ok supplied, false), (.ok supplied, true)] := by
  intro plain linked other schema options unfilled named supplied filled
  have built : (schema linked).Built := by
    refine .map (fun entry he => ?_)
      (rfl : Schema.map? [("copy", linked), ("name", plain)] = .ok (schema linked))
    rcases List.mem_cons.mp he with rfl | he
    · exact .withProps (.scalar .string) fun props =>
        { props with links := props.links.set .put fun context => context.get? "name" }
    · cases List.mem_singleton.mp he
      exact .scalar .string
  have otherMode : (schema linked).Rel (Props.SameIn .put) (schema other) :=
    .mk ⟨rfl, rfl, rfl, rfl⟩ (.map (.cons (.mk "copy" (.mk ⟨rfl, rfl, rfl, rfl⟩ (.scalar .string)))
      (.cons (.mk "name" (.mk ⟨rfl, rfl, rfl, rfl⟩ (.scalar .string))) .nil)))
  have unlinked : (schema linked).Rel Props.SameUnfilled (schema plain) :=
    .mk rfl (.map (.cons (.mk "copy" (.mk rfl (.scalar .string)))
      (.cons (.mk "name" (.mk rfl (.scalar .string))) .nil)))
  obtain ⟨kept, -, dropped⟩ := steps_of_replaced built (.inl (rfl : options.extension = none))
  obtain ⟨-, ignored, -⟩ := steps_of_replaced built (.inl (rfl : unfilled.extension = none))
  refine ⟨built, ?_, ignored rfl _ unlinked named, ?_⟩
  · rw [kept _ otherMode named]
    rfl
  · have same : ((schema plain).start options supplied).trace =
        ((schema linked).start options supplied).trace :=
      dropped .map (.inl rfl) [] "copy" linked [("name", plain)] rfl .empty .empty _ (.string "c")
        rfl
    rw [same]
    rfl

end ItemShape
