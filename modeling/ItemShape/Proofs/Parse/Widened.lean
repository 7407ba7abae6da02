import ItemShape.Proofs.Parse.Operations
import ItemShape.Proofs.Parse.Unread

/-!
# ItemShape.Proofs.Parse.Widened

A union may be given further members at its end. What was accepted before is filled with the same
tree as before, and so by the same members of unions (`Schema.Widened.covered`).

The union may stand anywhere, but not in another union: there, the wider one could take a value that
a later member of the outer union took before.

* `Schema.Widened`: schemas that differ by further members of such unions.
* `Covered`: a run that succeeds wherever another one does, with the same result. The walkers of the
  first step carry it from the children to the whole.
* `Schema.Covered`: the same for schemas. An extension may be any one that answers alike for an
  operation whose first step succeeds (`AnswersCovered`); that of update mode is one of them.
-/

namespace ItemShape

/-! ## Covered runs -/

/-- The second run succeeds wherever the first one does, with the same result. -/
def Covered {α : Type} (a b : Except SchemaError α) : Prop :=
  ∀ x, a = .ok x → b = .ok x

namespace Covered

variable {α β : Type} {a b : Except SchemaError α}

theorem refl (a : Except SchemaError α) : Covered a a :=
  fun _ h => h

theorem map (h : Covered a b) (f : α → β) : Covered (a.map f) (b.map f) := by
  intro y hy
  cases a with
  | error e => cases hy
  | ok x => rw [h x rfl]; exact hy

theorem bind (h : Covered a b) {f g : α → Except SchemaError β} (hf : ∀ x, Covered (f x) (g x)) :
    Covered (a.bind f) (b.bind g) := by
  intro y hy
  cases a with
  | error e => cases hy
  | ok x => rw [h x rfl]; exact hf x y hy

end Covered

/-- Where the step of the first one succeeds, the second one is the same. -/
def SameIfOk {α β : Type} (step : α → Except SchemaError β) (a b : α) : Prop :=
  ∀ x, step a = .ok x → b = a

/-! ## Lists, sets and records -/

section Children

variable {s : Settings} {f g : Settings → Option Value → Except SchemaError Filled}

theorem fillItems_covered (h : ∀ path item, Covered (f (s.at path) item) (g (s.at path) item))
    (position : Nat) (items : List Value) :
    Covered (fillItems f s position items) (fillItems g s position items) := by
  induction items generalizing position with
  | nil => exact .refl _
  | cons item rest ih =>
    rw [fillItems_cons, fillItems_cons]
    exact (h _ _).bind fun filled => (ih (position + 1)).map _

theorem fillMembers_covered {f g : Option Value → Except SchemaError Filled}
    (h : ∀ member, Covered (f member) (g member)) (members : List Value) :
    Covered (fillMembers f members) (fillMembers g members) := by
  induction members with
  | nil => exact .refl _
  | cons member rest ih =>
    rw [fillMembers_cons, fillMembers_cons]
    exact (h _).bind fun filled => ih.map _

theorem fillEntries_covered {f' g' : Settings → Option Value → Except SchemaError Filled}
    (hk : ∀ path key, Covered (f (s.at path) key) (g (s.at path) key))
    (he : ∀ path element, Covered (f' (s.at path) element) (g' (s.at path) element))
    (entries : List (String × Value)) :
    Covered (fillEntries f f' s entries) (fillEntries g g' s entries) := by
  induction entries with
  | nil => exact .refl _
  | cons entry rest ih =>
    rw [fillEntries_cons, fillEntries_cons]
    exact (hk _ _).bind fun _ => (he _ _).bind fun filled => ih.map _

end Children

/-! ## Attributes -/

section Attributes

variable {keyOnly : Bool} {s : Settings} {scope : Option LinkContext}
  {input : List (String × Value)}

/-- Attributes of one name that are put off alike, the second of which is filled wherever the first
one is. -/
structure Child.Covered (s : Settings) (child other : Child) : Prop where
  name : other.name = child.name
  stored : other.stored = child.stored
  isKey : other.isKey = child.isKey
  isLinked : other.isLinked = child.isLinked
  fill : ∀ path context raw,
    ItemShape.Covered (child.fill (s.at path) context raw) (other.fill (s.at path) context raw)

theorem fillDirect_covered {children others : List Child}
    (h : List.Forall₂ (Child.Covered s) children others) (seen : List (String × Value))
    (hok : ∀ entry ∈ (fillDirect keyOnly s scope input children seen).1, ∀ e,
      entry.2 ≠ .done (.error e)) :
    (fillDirect keyOnly s scope input others seen).2 =
        (fillDirect keyOnly s scope input children seen).2 ∧
      List.Forall₂ (fun entry other => Child.Covered s entry.1 other.1 ∧ other.2 = entry.2)
        (fillDirect keyOnly s scope input children seen).1
        (fillDirect keyOnly s scope input others seen).1 := by
  induction h generalizing seen with
  | nil => exact ⟨rfl, .nil⟩
  | @cons child other rest others hfirst _ ih =>
    simp only [fillDirect, hfirst.name, hfirst.isKey, hfirst.isLinked] at hok ⊢
    cases hk : keyOnly && !child.isKey with
    | true =>
      simp only [hk, if_true, List.forall_mem_cons] at hok ⊢
      obtain ⟨seen', attempts⟩ := ih _ hok.2
      exact ⟨seen', .cons ⟨hfirst, rfl⟩ attempts⟩
    | false =>
      cases hl : (Entries.get? child.name input).isNone && s.fill && child.isLinked with
      | true =>
        simp only [hk, hl, if_true, Bool.false_eq_true, if_false, List.forall_mem_cons] at hok ⊢
        obtain ⟨seen', attempts⟩ := ih _ hok.2
        exact ⟨seen', .cons ⟨hfirst, rfl⟩ attempts⟩
      | false =>
        simp only [hk, hl, Bool.false_eq_true, if_false, List.forall_mem_cons] at hok ⊢
        cases hf : child.fill (s.at (s.path.member child.name))
            (some (LinkContext.nested scope seen)) (Entries.get? child.name input) with
        | error e =>
          exact absurd (congrArg Attempt.done hf) (hok.1 e)
        | ok filled =>
          rw [hf] at hok
          rw [hfirst.fill _ _ _ filled hf]
          obtain ⟨seen', attempts⟩ := ih _ hok.2
          exact ⟨seen', .cons ⟨hfirst, rfl⟩ attempts⟩

/-- The second pass fails with an error of the first one. -/
theorem ne_error_of_fillDeferred {attempts : List (Child × Attempt)}
    {siblings : List (String × Value)} {slots : List (Slot Filled)}
    (h : fillDeferred s scope attempts siblings = .ok slots) :
    ∀ entry ∈ attempts, ∀ e, entry.2 ≠ .done (.error e) := by
  induction attempts generalizing siblings slots with
  | nil => exact List.forall_mem_nil _
  | cons entry rest ih =>
    obtain ⟨child, attempt⟩ := entry
    cases attempt with
    | skipped => exact List.forall_mem_cons.mpr ⟨by simp, ih h⟩
    | done outcome =>
      rw [fillDeferred_done] at h
      cases outcome with
      | error e => cases h
      | ok filled =>
        obtain ⟨others, hrest, -⟩ := Filled.map_ok_iff.mp h
        exact List.forall_mem_cons.mpr ⟨by simp, ih hrest⟩
    | deferred =>
      rw [fillDeferred_putOff] at h
      cases hf : child.fill (s.at (s.path.member child.name))
          (some (LinkContext.nested scope siblings)) none with
      | error e =>
        rw [hf] at h
        cases h
      | ok filled =>
        rw [hf] at h
        obtain ⟨others, hrest, -⟩ := Filled.map_ok_iff.mp h
        exact List.forall_mem_cons.mpr ⟨by simp, ih hrest⟩

theorem fillDeferred_covered {attempts others : List (Child × Attempt)}
    (h : List.Forall₂ (fun entry other => Child.Covered s entry.1 other.1 ∧ other.2 = entry.2)
      attempts others) (siblings : List (String × Value)) :
    Covered (fillDeferred s scope attempts siblings) (fillDeferred s scope others siblings) := by
  induction h generalizing siblings with
  | nil => exact .refl _
  | @cons entry other rest others hfirst _ ih =>
    obtain ⟨child, attempt⟩ := entry
    obtain ⟨child', attempt'⟩ := other
    obtain ⟨hchild, hattempt⟩ := hfirst
    cases hattempt
    dsimp only at hchild
    cases attempt with
    | skipped => exact ih siblings
    | done outcome =>
      rw [fillDeferred_done, fillDeferred_done, hchild.name, hchild.stored]
      exact (Covered.refl outcome).bind fun filled => (ih siblings).map _
    | deferred =>
      rw [fillDeferred_putOff, fillDeferred_putOff, hchild.name, hchild.stored]
      exact (hchild.fill _ _ none).bind fun filled => (ih _).map _

theorem fillAttributes_covered {children others : List Child}
    (h : List.Forall₂ (Child.Covered s) children others) :
    Covered (fillAttributes children keyOnly s scope input)
      (fillAttributes others keyOnly s scope input) := by
  have undeclared : undeclared? others input = undeclared? children input := by
    have any (name : String) : others.any (fun child => child.name == name) =
        children.any (fun child => child.name == name) := by
      induction h with
      | nil => rfl
      | cons hfirst _ ih => rw [List.any_cons, List.any_cons, hfirst.name, ih]
    simp only [undeclared?, any]
  intro filled hf
  simp only [fillAttributes, undeclared] at hf ⊢
  cases hu : undeclared? children input with
  | some name => simp [hu] at hf
  | none =>
    simp only [hu] at hf ⊢
    cases hd : fillDeferred s scope (fillDirect keyOnly s scope input children []).1
        (fillDirect keyOnly s scope input children []).2 with
    | error e => simp [hd] at hf
    | ok slots =>
      obtain ⟨seen, attempts⟩ := fillDirect_covered h [] (ne_error_of_fillDeferred hd)
      rw [hd] at hf
      rw [seen, fillDeferred_covered attempts _ slots hd]
      exact hf

end Attributes

/-! ## Kinds -/

/-- Answers to two schemas, the second of which differs only where the first step is an error. -/
inductive Consultation.Covered : Consultation → Consultation → Prop where
  | unextended (given : Option Value) : Covered (.unextended given) (.unextended given)
  | extended {parser other : Parser} (h : SameIfOk Update.step parser other) :
    Covered (.extended parser) (.extended other)

theorem Consultation.Covered.refl (answer : Consultation) : answer.Covered answer := by
  cases answer with
  | unextended given => exact .unextended given
  | extended parser => exact .extended fun _ _ => rfl

/-- Schemas that differ by further members of unions, none of which stands in another union. -/
inductive Schema.Widened : Schema → Schema → Prop where
  | same (schema : Schema) : Widened schema schema
  | appended (props : Props) (members further : List Schema) :
    Widened (.mk props (.anyOf members)) (.mk props (.anyOf (members ++ further)))
  | inside (props : Props) {kind kind' : Kind Schema} (hu : kind.name ≠ .anyOf)
    (hk : kind.Rel Widened kind') : Widened (.mk props kind) (.mk props kind')

/-- The extension answers alike for an operation whose first step succeeds. -/
def AnswersCovered (extension : Option Extension) : Prop :=
  ∀ schema other s input, schema.Widened other →
    (Extension.consult extension schema s input).Covered (Extension.consult extension other s input)

theorem answersCovered_none : AnswersCovered none :=
  fun _ _ _ input _ => .unextended input

/-- The second schema is filled wherever the first one is, in the same way. -/
structure Schema.Covered (schema other : Schema) : Prop where
  props : other.props = schema.props
  fill : ∀ extension, AnswersCovered extension → ∀ s scope input,
    ItemShape.Covered (fillNode schema extension s scope input)
      (fillNode other extension s scope input)

section Kinds

variable {kind kind' : Kind Schema} {transformer : Option Transformer}
  {extension : Option Extension} {s : Settings} {scope : Option LinkContext}

theorem fillFirst_append {members : List Schema} {v : Value} {filled : Filled}
    (h : fillFirst members extension s scope v = some filled) (further : List Schema) :
    fillFirst (members ++ further) extension s scope v = some filled := by
  induction members with
  | nil => cases h
  | cons member rest ih =>
    rw [List.cons_append, fillFirst]
    rw [fillFirst] at h
    cases hf : fillNode member extension s scope (some v) with
    | ok first => rwa [hf] at h
    | error e =>
      rw [hf] at h
      exact ih h

/-- A later member of a union does not count where an earlier one accepts the value. -/
theorem fillKind_appended (members further : List Schema) (v : Value) :
    Covered (fillKind (.anyOf members) transformer extension s scope v)
      (fillKind (.anyOf (members ++ further)) transformer extension s scope v) := by
  intro filled h
  rw [fillKind_anyOf_ok_iff] at h ⊢
  exact fillFirst_append h further

theorem childOf_covered (hx : AnswersCovered extension) {entry other : String × Schema}
    (h : Attribute.Rel Schema.Covered entry other) :
    (childOf extension s.mode entry).Covered s (childOf extension s.mode other) := by
  cases h with
  | mk name h =>
    refine ⟨rfl, ?_, ?_, ?_, fun path context raw => h.fill extension hx _ context raw⟩
    · simp only [childOf, Schema.storedName, h.props]
    · simp only [childOf, Schema.isKey, h.props]
    · simp only [childOf, Schema.link?, h.props]

theorem fillKind_covered (hx : AnswersCovered extension) (hu : kind.name ≠ .anyOf)
    (h : kind.Rel Schema.Covered kind') (v : Value) :
    Covered (fillKind kind transformer extension s scope v)
      (fillKind kind' transformer extension s scope v) := by
  have named {attributes others : List (String × Schema)} (hk : kind.attributes? = some attributes)
      (hk' : kind'.attributes? = some others)
      (ha : List.Forall₂ (Attribute.Rel Schema.Covered) attributes others) :
      Covered (fillKind kind transformer extension s scope v)
        (fillKind kind' transformer extension s scope v) := by
    rw [fillKind_attributes_eq hk, fillKind_attributes_eq hk', Kind.keyOnly, Kind.keyOnly, h.name_eq]
    cases v with
    | map input =>
      refine fillAttributes_covered ?_
      rw [List.forall₂_map_left_iff, List.forall₂_map_right_iff]
      exact ha.imp fun _ _ h => childOf_covered hx h
    | _ => exact .refl _
  cases h with
  | scalar kind => exact .refl _
  | @set elements elements' h =>
    cases v with
    | list members =>
      rw [fillKind_set_eq, fillKind_set_eq]
      cases Value.hasDuplicates members with
      | true => exact .refl _
      | false =>
        exact (fillMembers_covered (fun member => h.fill none answersCovered_none s scope member)
          members).map _
    | _ => exact .refl _
  | @list elements elements' h =>
    cases v with
    | list items =>
      rw [fillKind_list_eq, fillKind_list_eq]
      exact (fillItems_covered (fun path item => h.fill extension hx _ scope item) 0 items).map _
    | _ => exact .refl _
  | map h => exact named rfl rfl h
  | @record keys elements keys' elements' hk he =>
    cases v with
    | map input =>
      rw [fillKind_record_eq, fillKind_record_eq, Schema.transformer?, Schema.transformer?,
        hk.props]
      exact (fillEntries_covered (fun path key => hk.fill none answersCovered_none _ none key)
        (fun path element => he.fill extension hx _ scope element) input).map _
    | _ => exact .refl _
  | anyOf h => exact absurd rfl hu
  | item h => exact named rfl rfl h

end Kinds

/-! ## Nodes -/

theorem fillNode_covered {props : Props} {kind kind' : Kind Schema} {extension : Option Extension}
    {s : Settings} {scope : Option LinkContext} {input : Option Value}
    (hname : kind'.name = kind.name)
    (hc : (Extension.consult extension (.mk props kind) s input).Covered
      (Extension.consult extension (.mk props kind') s input))
    (h : ∀ v, Covered (fillKind kind props.transformer extension s scope v)
      (fillKind kind' props.transformer extension s scope v)) :
    Covered (fillNode (.mk props kind) extension s scope input)
      (fillNode (.mk props kind') extension s scope input) := by
  intro filled hf
  generalize hold : Extension.consult extension (.mk props kind) s input = answer at hc
  generalize hnew : Extension.consult extension (.mk props kind') s input = answer' at hc
  cases hc with
  | extended same =>
    obtain ⟨value, hv, rfl⟩ := (fillNode_extended_ok_iff hold).mp hf
    cases same value hv
    exact (fillNode_extended_ok_iff hnew).mpr ⟨value, hv, rfl⟩
  | unextended given =>
    cases hr : resolved props s scope given with
    | none =>
      rw [fillNode_absent_ok_iff hold hr] at hf
      exact (fillNode_absent_ok_iff hnew hr).mpr hf
    | some v =>
      obtain ⟨hk, checked⟩ := (fillNode_present_ok_iff hold hr).mp hf
      rw [← hname] at checked
      exact (fillNode_present_ok_iff hnew hr).mpr ⟨h v filled hk, checked⟩

/-- By induction on the schema: a wider schema is filled wherever the narrower one is. -/
theorem Schema.Widened.covered {schema other : Schema} (h : schema.Widened other) :
    schema.Covered other := by
  induction schema using Schema.induct generalizing other with
  | node props kind ih =>
    cases h with
    | same => exact ⟨rfl, fun _ _ _ _ _ => .refl _⟩
    | appended _ members further =>
      refine ⟨rfl, fun extension hx s scope input => fillNode_covered rfl ?_ fun v => ?_⟩
      · exact hx _ _ s input (.appended props members further)
      · exact fillKind_appended members further v
    | @inside _ _ kind' hu hk =>
      have children : kind.Rel Schema.Covered kind' := hk.imp fun child hm _ h => ih child hm h
      refine ⟨rfl, fun extension hx s scope input => fillNode_covered hk.name_eq.symm ?_ fun v => ?_⟩
      · exact hx _ _ s input (.inside props hu hk)
      · exact fillKind_covered hx hu children v

/-- A parse whose first step succeeds goes the same way against a wider schema. -/
theorem start_sameIfOk {schema other : Schema} {extension : Option Extension} {s : Settings}
    {input : Option Value} (h : Covered (fillNode schema extension s none input)
      (fillNode other extension s none input)) :
    SameIfOk Update.step (start schema extension s input) (start other extension s input) := by
  intro value hv
  obtain ⟨filled, hf, -⟩ := step_start_ok_iff.mp hv
  simp only [start, hf, h filled hf]

/-! ## Operations -/

namespace Update

variable {s : Settings} {schema other : Schema}

/-- Operands that the first schema accepts go the same way against the second one. -/
def OperandsCovered (s : Settings) (schema other : Schema) : Prop :=
  ∀ tag operand, SameIfOk step (startOperand schema s tag operand) (startOperand other s tag operand)

theorem operandsCovered (h : schema.Widened other) : OperandsCovered s schema other :=
  fun tag operand => start_sameIfOk
    (h.covered.fill none answersCovered_none (operandSettings s tag) none (some operand))

theorem step_ok_of_many {parsers : List Parser} {value : Option Value}
    (h : (Operand.many parsers).step = .ok value) :
    ∀ parser ∈ parsers, ∃ value, step parser = .ok value := by
  rw [Operand.step] at h
  cases hall : stepAll parsers with
  | error e => simp [hall] at h
  | ok values => exact step_ok_of_stepAll hall

theorem setOperand_sameIfOk (h : OperandsCovered s schema other) (tag : OpTag) (operand : Value) :
    SameIfOk Operand.step (setOperand schema s tag operand) (setOperand other s tag operand) := by
  have one (member : Value) : SameIfOk Operand.step (.one (startOperand schema s tag member))
      (.one (startOperand other s tag member)) :=
    fun value hv => congrArg Operand.one (h tag member value hv)
  cases operand with
  | list members =>
    intro value hv
    have each := step_ok_of_many hv
    refine congrArg Operand.many (List.map_congr_left fun member hm => ?_)
    obtain ⟨w, hw⟩ := each _ (List.mem_map_of_mem hm)
    exact h tag member w hw
  | _ => exact one _

/-- The second action is the first one, if its first step succeeds. -/
def ActionsCovered (s : Settings) (action other : Action) : Prop :=
  SameIfOk (Action.step s.path) action other

theorem wrap_sameIfOk {build : Value → Operation Value} {operand other : Operand}
    (h : SameIfOk Operand.step operand other) :
    ActionsCovered s (.wrap build operand) (.wrap build other) := by
  intro value hv
  cases hs : operand.step with
  | error e => simp [Action.step, hs] at hv
  | ok v => rw [h v hs]

theorem get_sameIfOk (h : OperandsCovered s schema other) (source : String)
    (fallback : Option Value) :
    ActionsCovered s (.get source (fallback.map (startOperand schema s .get)))
      (.get source (fallback.map (startOperand other s .get))) := by
  intro value hv
  cases fallback with
  | none => rfl
  | some v =>
    cases hs : step (startOperand schema s .get v) with
    | error e =>
      simp only [Action.step, Option.map_some, hs] at hv
      split at hv <;> cases hv
    | ok w => rw [Option.map_some, Option.map_some, h .get v w hs]

section

variable {props : Props} {kind kind' : Kind Schema}

/-- Operations are recognised alike, on kinds of one shape and on unions. -/
theorem action?_covered (self : OperandsCovered s (.mk props kind) (.mk props kind'))
    (hk : kind.Rel (OperandsCovered s) kind' ∨
      ∃ members others, kind = .anyOf members ∧ kind' = .anyOf others)
    (operation : Operation Value) :
    Option.Rel (ActionsCovered s) (action? (.mk props kind) s operation)
      (action? (.mk props kind') s operation) := by
  have whole (build : Value → Operation Value) (tag : OpTag) (operand : Value) :
      ActionsCovered s (.wrap build (.one (startOperand (.mk props kind) s tag operand)))
        (.wrap build (.one (startOperand (.mk props kind') s tag operand))) :=
    wrap_sameIfOk fun value hv => congrArg Operand.one (self tag operand value hv)
  rcases hk with hk | ⟨members, others, rfl, rfl⟩
  · cases operation with
    | remove => exact .some fun _ _ => rfl
    | get source fallback => exact .some (get_sameIfOk self source fallback)
    | add operand =>
      cases hk with
      | scalar kind =>
        cases kind with
        | number => exact .some (whole .add .add operand)
        | _ => exact .none
      | set h => exact .some (wrap_sameIfOk (setOperand_sameIfOk h .add operand))
      | _ => exact .none
    | delete operand =>
      cases hk with
      | set h => exact .some (wrap_sameIfOk (setOperand_sameIfOk h .delete operand))
      | _ => exact .none
    | set operand =>
      cases hk with
      | map | record | list => exact .some (whole .set .set operand)
      | _ => exact .none
  · cases operation with
    | remove => exact .some fun _ _ => rfl
    | get source fallback => exact .some (get_sameIfOk self source fallback)
    | _ => exact .none

theorem consult_covered {props : Props} {kind kind' : Kind Schema}
    (actions : ∀ operation, Option.Rel (ActionsCovered s) (action? (.mk props kind) s operation)
      (action? (.mk props kind') s operation)) (input : Option Value) :
    (consult (.mk props kind) s input).Covered (consult (.mk props kind') s input) := by
  cases input with
  | none => exact .unextended none
  | some v =>
    cases v with
    | op operation =>
      have action := actions operation
      simp only [consult]
      generalize action? (.mk props kind) s operation = first at action ⊢
      generalize action? (.mk props kind') s operation = second at action ⊢
      cases action with
      | none => exact .unextended _
      | some same =>
        refine .extended fun value hv => ?_
        rw [step_new] at hv
        rw [same value hv]
    | _ => exact .unextended _

end

end Update

/-- The extension of update mode answers alike for wider schemas. -/
theorem answersCovered_update : AnswersCovered (some Update.extension) := by
  intro schema other s input h
  have self : Update.OperandsCovered s schema other := Update.operandsCovered h
  cases h with
  | same schema => exact .refl _
  | appended props members further =>
    exact Update.consult_covered (Update.action?_covered self (.inr ⟨_, _, rfl, rfl⟩)) input
  | inside props hu hk =>
    have elements : Kind.Rel (Update.OperandsCovered s) _ _ :=
      hk.imp fun _ _ _ h => Update.operandsCovered h
    exact Update.consult_covered (Update.action?_covered self (.inl elements)) input

end ItemShape
