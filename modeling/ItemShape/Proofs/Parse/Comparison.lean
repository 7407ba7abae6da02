import ItemShape.Proofs.Parse.Agree

/-!
# ItemShape.Proofs.Parse.Comparison

One value parsed twice against one schema, under settings and in contexts that differ. A
`Comparison` says which errors, trees, settings and contexts of the two parses correspond, and
carries what makes that a correspondence at every node: trees correspond if their children do, and
settings still correspond one segment further.

The two parses then correspond as a whole, provided that what stands in for absent values is the
same in both and that the extension answers correspondingly (`Comparison.fills`).
-/

namespace ItemShape

/-- The contexts of two parses that correspond: at the root, and then inside maps. -/
structure Scopes where
  scope : Option LinkContext → Option LinkContext → Prop
  unscoped : scope none none
  nested {c c' : Option LinkContext} (h : scope c c') (siblings : List (String × Value)) :
    scope (some (.nested c siblings)) (some (.nested c' siblings))

/-- Links see the same in both parses. -/
def Scopes.same : Scopes where
  scope := Eq
  unscoped := rfl
  nested h siblings := by rw [h]

/-- Links may see anything. -/
def Scopes.any : Scopes where
  scope _ _ := True
  unscoped := trivial
  nested _ _ := trivial

structure Comparison extends Scopes where
  error : SchemaError → SchemaError → Prop
  tree : Filled → Filled → Prop
  settings : Settings → Settings → Prop
  mode_eq {s s' : Settings} (h : settings s s') : s.mode = s'.mode
  fill_eq {s s' : Settings} (h : settings s s') : s.fill = s'.fill
  extend {s s' : Settings} (h : settings s s') (segment : Segment) :
    settings (s.at (s.path.extend segment)) (s'.at (s'.path.extend segment))
  /-- Errors at the two places, for one reason. -/
  fails {s s' : Settings} (h : settings s s') (reason : ErrorReason) :
    error ⟨s.path, reason⟩ ⟨s'.path, reason⟩
  value {f g : Filled} (h : tree f g) : f.value? = g.value?
  absent : tree .absent .absent
  scalar (transformer : Option Transformer) (v : Value) :
    tree (.scalar transformer v) (.scalar transformer v)
  list {fs gs : List Filled} (h : List.Forall₂ tree fs gs) : tree (.list fs) (.list gs)
  set {fs gs : List Filled} (h : List.Forall₂ tree fs gs) : tree (.set fs) (.set gs)
  map {slots others : List (Slot Filled)} (h : List.Forall₂ (Slot.Rel tree) slots others) :
    tree (.map slots) (.map others)
  record (keys : Option Transformer) {fs gs : List (String × Filled)} (h : Entries.Rel tree fs gs) :
    tree (.record keys fs) (.record keys gs)

/-- Both parses are left the same input, or both are taken over, with corresponding first steps. -/
inductive Consultation.Corresponds (C : Comparison) : Consultation → Consultation → Prop where
  | unextended (given : Option Value) : Corresponds C (.unextended given) (.unextended given)
  | extended {parser other : Parser}
    (h : Agree C.error (fun v w => C.tree (.extended v parser.next.2) (.extended w other.next.2))
      (parser.next.1.getD (.ok none)) (other.next.1.getD (.ok none))) :
    Corresponds C (.extended parser) (.extended other)

theorem Consultation.Corresponds.cases {C : Comparison} {answer other : Consultation}
    (h : answer.Corresponds C other) :
    (∃ given, answer = .unextended given ∧ other = .unextended given) ∨
      ∃ parser parser', answer = .extended parser ∧ other = .extended parser' ∧
        Agree C.error
          (fun v w => C.tree (.extended v parser.next.2) (.extended w parser'.next.2))
          (parser.next.1.getD (.ok none)) (parser'.next.1.getD (.ok none)) := by
  cases h with
  | unextended given => exact .inl ⟨given, rfl, rfl⟩
  | extended h => exact .inr ⟨_, _, rfl, rfl, h⟩

namespace Comparison

variable (C : Comparison)

/-- The extension answers correspondingly under corresponding settings. -/
def Aligns (extension : Option Extension) : Prop :=
  ∀ schema s s' input, C.settings s s' →
    (Extension.consult extension schema s input).Corresponds C
      (Extension.consult extension schema s' input)

theorem aligns_none : C.Aligns none :=
  fun _ _ _ input _ => .unextended input

/-- The same value stands in for an absent one in both parses. -/
def Resolves (schema : Schema) : Prop :=
  ∀ s s' scope scope' given, C.settings s s' → C.scope scope scope' →
    resolved schema.props s scope given = resolved schema.props s' scope' given

/-- The schema is filled correspondingly. -/
def Fills (schema : Schema) : Prop :=
  ∀ extension, C.Aligns extension → ∀ s s' scope scope' input, C.settings s s' →
    C.scope scope scope' → Agree C.error C.tree (fillNode schema extension s scope input)
      (fillNode schema extension s' scope' input)

variable {C} {s s' : Settings} (hs : C.settings s s')

include hs

/-! ## Checks -/

theorem checkEnumerated_agree (enumerated : Option (List Value)) (v : Value) :
    Agree C.error (fun _ _ => True) (checkEnumerated enumerated s.path v)
      (checkEnumerated enumerated s'.path v) := by
  cases enumerated with
  | none => exact .ok trivial
  | some allowed =>
    simp only [checkEnumerated]
    split
    · exact .ok trivial
    · exact .error (C.fails hs _)

theorem checkValidator_agree (validator : Option Validator) (kind : KindName) (v : Value) :
    Agree C.error (fun _ _ => True) (checkValidator validator kind s.path v)
      (checkValidator validator kind s'.path v) := by
  cases validator with
  | none => exact .ok trivial
  | some validator =>
    simp only [checkValidator]
    cases validator v with
    | valid => exact .ok trivial
    | invalid message => exact .error (C.fails hs _)

theorem checkFilled_agree (props : Props) (kind : KindName) {f g : Filled} (h : C.tree f g) :
    Agree C.error (fun _ _ => True) (checkFilled props kind s f) (checkFilled props kind s' g) := by
  simp only [checkFilled, C.value h, C.mode_eq hs]
  cases g.value? with
  | none => exact .ok trivial
  | some v =>
    obtain ⟨e, e', hf, hg, he⟩ | ⟨_, _, hf, hg, -⟩ :=
      (checkEnumerated_agree hs props.enumerated v).cases
    · simp only [hf, hg]
      exact .error he
    · simp only [hf, hg]
      exact checkValidator_agree hs _ kind v

/-! ## Kinds -/

section Kinds

variable {kind : Kind Schema} {transformer : Option Transformer} {extension : Option Extension}
  {scope scope' : Option LinkContext}

theorem fillKind_attributes_fills (hx : C.Aligns extension) (hscope : C.scope scope scope')
    (each : ∀ schema ∈ kind.children, C.Fills schema)
    {attributes : List (String × Schema)} (hk : kind.attributes? = some attributes) (v : Value) :
    Agree C.error C.tree (fillKind kind transformer extension s scope v)
      (fillKind kind transformer extension s' scope' v) := by
  rw [fillKind_attributes_eq hk, fillKind_attributes_eq hk]
  cases v with
  | map input =>
    have agree : Agree C.error (fun f g => ∃ slots others, f = .map slots ∧ g = .map others ∧
          List.Forall₂ (Slot.Rel C.tree) slots others)
        (fillAttributes (attributes.map (childOf extension s.mode)) (kind.keyOnly s.mode) s scope
          input)
        (fillAttributes (attributes.map (childOf extension s.mode)) (kind.keyOnly s.mode) s' scope'
          input) := by
      refine fillAttributes_agree (V := Eq) (C.fill_eq hs) ?value ?declared (fun _ _ => rfl)
        ?skipped ?each
      case value =>
        intro f g h
        rw [C.value h]
        exact rel_of_refl Eq.refl _
      case declared =>
        exact rel_of_refl (fun name => C.fails (C.extend hs (.member name)) _) _
      case skipped => exact fun _ _ _ => rel_of_refl Eq.refl _
      case each =>
        intro child hc _ siblings siblings' hsiblings
        obtain ⟨entry, he, rfl⟩ := List.mem_map.mp hc
        cases Entries.rel_eq_iff.mp hsiblings.rel
        exact each entry.2 (Kind.mem_children hk he) extension hx _ _ _ _ _
          (C.extend hs (.member entry.1)) (C.nested hscope siblings)
    rw [← C.mode_eq hs]
    refine agree.imp fun f g h => ?_
    obtain ⟨slots, others, rfl, rfl, hslots⟩ := h
    exact C.map hslots
  | _ => exact .error (C.fails hs _)

theorem fillKind_fills (hx : C.Aligns extension) (hscope : C.scope scope scope')
    (each : ∀ schema ∈ kind.children, C.Fills schema) (v : Value) :
    Agree C.error C.tree (fillKind kind transformer extension s scope v)
      (fillKind kind transformer extension s' scope' v) := by
  cases kind with
  | scalar kind =>
    simp only [fillKind]
    cases scalarMatches kind v with
    | true => exact .ok (C.scalar transformer v)
    | false => exact .error (C.fails hs _)
  | list elements =>
    have element : C.Fills elements := each elements List.mem_cons_self
    cases v with
    | list items =>
      refine fillKind_list_agree (fun _ _ => C.list)
        (List.forall₂_same.mpr fun item _ position => ?_)
      exact element extension hx _ _ _ _ _ (C.extend hs (.index position)) hscope
    | _ => exact .error (C.fails hs _)
  | set elements =>
    have element : C.Fills elements := each elements List.mem_cons_self
    cases v with
    | list members =>
      refine fillKind_set_agree (fun _ _ => C.set) rfl (C.fails hs _)
        (List.forall₂_same.mpr fun member _ => ?_)
      exact element none C.aligns_none _ _ _ _ _ hs hscope
    | _ => exact .error (C.fails hs _)
  | record keys elements =>
    have key : C.Fills keys := each keys List.mem_cons_self
    have element : C.Fills elements := each elements (List.mem_cons_of_mem _ List.mem_cons_self)
    cases v with
    | map input =>
      refine fillKind_record_agree (fun _ _ => C.record _) (fun name => ?_)
        (List.forall₂_same.mpr fun entry _ => ⟨rfl, fun name => ?_⟩)
      · exact (key none C.aligns_none _ _ _ _ _ (C.extend hs (.member name)) C.unscoped).imp
          fun _ _ _ => trivial
      · exact element extension hx _ _ _ _ _ (C.extend hs (.member name)) hscope
    | _ => exact .error (C.fails hs _)
  | anyOf members =>
    exact fillKind_anyOf_agree (C.fails hs _) fun member hm =>
      each member hm extension hx _ _ _ _ _ hs hscope
  | map attributes => exact fillKind_attributes_fills hs hx hscope each rfl v
  | item attributes => exact fillKind_attributes_fills hs hx hscope each rfl v

end Kinds

omit hs

/-! ## Nodes -/

/-- Corresponding parses of one value, by induction on the schema. -/
theorem fills {schema : Schema} (h : schema.Everywhere C.Resolves) : C.Fills schema := by
  induction schema using Schema.induct with
  | node props kind ih =>
    intro extension hx s s' scope scope' input hs hscope
    have each : ∀ schema ∈ kind.children, C.Fills schema :=
      fun schema hm => ih schema hm (h.child hm)
    obtain ⟨given, hc, hc'⟩ | ⟨parser, parser', hc, hc', first⟩ :=
      (hx (.mk props kind) s s' input hs).cases
    · have hresolved : resolved props s scope given = resolved props s' scope' given :=
        h.root s s' scope scope' given hs hscope
      cases hr : resolved props s' scope' given with
      | none =>
        exact fillNode_absent_agree (C.mode_eq hs) hc hc' (hresolved.trans hr) hr (C.fails hs _)
          C.absent
      | some v =>
        exact fillNode_present_agree hc hc' (hresolved.trans hr) hr
          (fillKind_fills hs hx hscope each v) fun f g => checkFilled_agree hs props kind.name
    · exact fillNode_extended_agree hc hc' first

end Comparison
end ItemShape
