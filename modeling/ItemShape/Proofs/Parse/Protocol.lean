import ItemShape.Proofs.Parse.Comparison
import ItemShape.Proofs.Parse.Update

/-!
# ItemShape.Proofs.Parse.Protocol

The protocol of a parser: one step, or two if the value to store is wanted and the first step was no
error, and nothing ever after (`two_step_protocol`). The first step does not depend on whether a
second one is wanted, although the parsers of operands are told.

* `Parser.Yields`: what a caller gets, call by call.
* `Unflagged`: an extension whose parsers take the same first step either way.
* `Schema.unflagged`: with such an extension a node is filled with the same value either way, as a
  `Comparison` of the two parses.
-/

namespace ItemShape

/-! ## Calls -/

namespace Parser

/-- The parser after some calls. -/
def after : Nat → Parser → Parser
  | 0, parser => parser
  | count + 1, parser => after count parser.next.2

/-- The answer to a call, after some others: the next step, or nothing. -/
def call (count : Nat) (parser : Parser) : Option Outcome :=
  (parser.after count).next.1

/-- The calls are answered with these outcomes, one after the other, and then with nothing. -/
def Yields (parser : Parser) (outcomes : List Outcome) : Prop :=
  ∀ count, parser.call count = outcomes[count]?

variable {parser : Parser} {outcome : Outcome} {outcomes : List Outcome}

/-- An exhausted parser stays as it is. -/
theorem yields_nil (h : parser.phase = .exhausted) : parser.Yields [] := by
  have stays : parser.next = (none, parser) := by simp [next, h]
  intro count
  induction count with
  | zero => simp [call, after, stays]
  | succ count ih =>
    have same : parser.call (count + 1) = parser.call count := by simp [call, after, stays]
    rw [same, ih]
    rfl

theorem yields_cons (first : parser.next.1 = some outcome)
    (others : parser.next.2.Yields outcomes) : parser.Yields (outcome :: outcomes) := by
  intro count
  cases count with
  | zero => exact first
  | succ count => exact others count

theorem yields_new (transform : Bool) (first second : Outcome) :
    (new transform first second).Yields
      (first :: if transform && first.isOk then [second] else []) := by
  cases first with
  | error e =>
    rw [Except.isOk, Except.toBool, Bool.and_false]
    exact yields_cons rfl (yields_nil rfl)
  | ok value =>
    rw [Except.isOk, Except.toBool, Bool.and_true]
    cases transform with
    | false => exact yields_cons rfl (yields_nil rfl)
    | true => exact yields_cons rfl (yields_cons rfl (yields_nil rfl))

theorem run_new (transform : Bool) (first second : Outcome) :
    (new transform first second).run = if transform && first.isOk then second else first := by
  cases first with
  | error e => cases transform <;> rfl
  | ok value =>
    cases transform with
    | false => rfl
    | true => cases second <;> rfl

end Parser

/-- A parse ends with the value to store, or with the filled one if no other is wanted. -/
theorem parse_eq (schema : Schema) (options : ParseOptions) (input : Option Value) :
    schema.parse options input =
      (fillNode schema options.extension options.toSettings none input).bind fun filled =>
        if options.transform then filled.store options.path else .ok filled.value? := by
  unfold Schema.parse Schema.start start
  cases fillNode schema options.extension options.toSettings none input with
  | error e =>
    rw [Parser.run_new, Except.isOk, Except.toBool, Bool.and_false]
    rfl
  | ok filled =>
    rw [Parser.run_new, Except.isOk, Except.toBool, Bool.and_true]
    rfl

theorem parse_ok_iff {schema : Schema} {options : ParseOptions} {input t : Option Value} :
    schema.parse options input = .ok t ↔
      ∃ filled, fillNode schema options.extension options.toSettings none input = .ok filled ∧
        (if options.transform then filled.store options.path else .ok filled.value?) = .ok t := by
  rw [parse_eq]
  constructor
  · intro h
    cases hf : fillNode schema options.extension options.toSettings none input with
    | error e =>
      rw [hf] at h
      cases h
    | ok filled =>
      rw [hf] at h
      exact ⟨filled, rfl, h⟩
  · rintro ⟨filled, hf, ht⟩
    rw [hf]
    exact ht

/-! ## The first step -/

/-- The same settings, with or without the value to store being wanted. -/
def Settings.wanting (settings : Settings) (transform : Bool) : Settings :=
  { settings with transform := transform }

/-- The same options, with or without the value to store being wanted. -/
def ParseOptions.wanting (options : ParseOptions) (transform : Bool) : ParseOptions :=
  { options with transform := transform }

/-- Trees of one filled value. -/
def SameValue (f g : Filled) : Prop :=
  f.value? = g.value?

namespace SameValue

theorem rel {f g : Filled} (h : SameValue f g) : Option.Rel Eq f.value? g.value? := by
  have h : f.value? = g.value? := h
  rw [h]
  exact rel_of_refl Eq.refl _

theorem itemValues_eq {fs gs : List Filled} (h : List.Forall₂ SameValue fs gs) :
    Filled.itemValues fs = Filled.itemValues gs := by
  rw [← List.forall₂_eq_eq_eq]
  exact Filled.itemValues_rel (fun _ _ => rel) h

theorem list {fs gs : List Filled} (h : List.Forall₂ SameValue fs gs) :
    SameValue (.list fs) (.list gs) :=
  congrArg (fun items => some (Value.list items)) (itemValues_eq h)

theorem set {fs gs : List Filled} (h : List.Forall₂ SameValue fs gs) :
    SameValue (.set fs) (.set gs) :=
  congrArg (fun items => some (Value.list items)) (itemValues_eq h)

theorem map {slots others : List (Slot Filled)}
    (h : List.Forall₂ (Slot.Rel SameValue) slots others) : SameValue (.map slots) (.map others) :=
  congrArg (fun entries => some (Value.map entries))
    (Entries.rel_eq_iff.mp (Filled.slotValues_rel (fun _ _ => rel) h))

theorem record (keys : Option Transformer) {fs gs : List (String × Filled)}
    (h : Entries.Rel SameValue fs gs) : SameValue (.record keys fs) (.record keys gs) :=
  congrArg (fun entries => some (Value.map entries))
    (Entries.rel_eq_iff.mp (Filled.entryValues_rel (fun _ _ => rel) h))

end SameValue

/-- An extension whose parsers take the same first step, whether or not a second one is wanted. -/
structure Unflagged (extension : Option Extension) : Prop where
  handed : ∀ schema settings transform input given,
    Extension.consult extension schema settings input = .unextended given →
      Extension.consult extension schema (settings.wanting transform) input = .unextended given
  owned : ∀ schema settings transform input parser,
    Extension.consult extension schema settings input = .extended parser → ∃ other,
      Extension.consult extension schema (settings.wanting transform) input = .extended other ∧
        Update.step parser = Update.step other

theorem unflagged_none : Unflagged none where
  handed _ _ _ _ _ h := h
  owned _ _ _ _ _ h := by cases h

/-- The schema is filled with the same value, whether or not a value to store is wanted. -/
def Schema.Unflagged (schema : Schema) : Prop :=
  ∀ extension, ItemShape.Unflagged extension → ∀ settings transform scope input,
    Agree Eq SameValue (fillNode schema extension settings scope input)
      (fillNode schema extension (settings.wanting transform) scope input)

/-- A parse that yields the value to store, or not, and the same parse with that changed. -/
def Comparison.wanting (transform : Bool) : Comparison where
  toScopes := .same
  error := Eq
  tree := SameValue
  settings s s' := s' = s.wanting transform
  mode_eq h := by
    rw [h]
    rfl
  fill_eq h := by
    rw [h]
    rfl
  extend h segment := by
    rw [h]
    rfl
  fails h reason := by
    rw [h]
    rfl
  value h := h
  absent := rfl
  scalar _ _ := rfl
  list := .list
  set := .set
  map := .map
  record keys _ _ := .record keys

theorem Unflagged.aligns {extension : Option Extension} (hx : Unflagged extension)
    (transform : Bool) : (Comparison.wanting transform).Aligns extension := by
  rintro schema s _ input rfl
  cases hc : Extension.consult extension schema s input with
  | unextended given =>
    rw [hx.handed _ _ transform _ _ hc]
    exact .unextended given
  | extended parser =>
    obtain ⟨other, hc', hstep⟩ := hx.owned _ _ transform _ _ hc
    have hstep : parser.next.1.getD (.ok none) = other.next.1.getD (.ok none) := hstep
    rw [hc']
    refine .extended ?_
    rw [hstep]
    cases other.next.1.getD (.ok none) with
    | error e => exact .error rfl
    | ok value => exact .ok rfl

theorem Schema.unflagged (schema : Schema) : schema.Unflagged := by
  intro extension hx settings transform scope input
  have resolves : schema.Everywhere (Comparison.wanting transform).Resolves := by
    rintro node - s _ scope _ given rfl rfl
    rfl
  exact Comparison.fills resolves extension (hx.aligns transform) _ _ _ _ _ rfl rfl

/-! ## Operations -/

theorem step_start_wanting {extension : Option Extension} (hx : Unflagged extension)
    (schema : Schema) (settings : Settings) (transform : Bool) (input : Option Value) :
    Update.step (start schema extension settings input) =
      Update.step (start schema extension (settings.wanting transform) input) := by
  have agree := schema.unflagged extension hx settings transform none input
  unfold start
  obtain ⟨e, e', hf, hg, rfl⟩ | ⟨f, g, hf, hg, h⟩ := agree.cases
  · simp only [hf, hg, step_new]
  · have h : f.value? = g.value? := h
    simp only [hf, hg, step_new, h]

namespace Update

variable {schema : Schema} {settings : Settings}

theorem step_startOperand_wanting (schema : Schema) (settings : Settings) (transform : Bool)
    (tag : OpTag) (operand : Value) :
    step (startOperand schema settings tag operand) =
      step (startOperand schema (settings.wanting transform) tag operand) :=
  step_start_wanting unflagged_none schema (operandSettings settings tag) transform (some operand)

theorem step_setOperand_wanting (elements : Schema) (settings : Settings) (transform : Bool)
    (tag : OpTag) (operand : Value) :
    (setOperand elements settings tag operand).step =
      (setOperand elements (settings.wanting transform) tag operand).step := by
  cases operand with
  | list members =>
    have members_step : stepAll (members.map (startOperand elements settings tag)) =
        stepAll (members.map (startOperand elements (settings.wanting transform) tag)) := by
      induction members with
      | nil => rfl
      | cons member rest ih =>
        simp only [List.map_cons, stepAll, ih,
          step_startOperand_wanting elements settings transform tag member]
    simp only [setOperand, Operand.step, members_step]
  | _ => exact step_startOperand_wanting elements settings transform tag _

/-- A recognised operation is recognised either way, and its first step is the same. -/
theorem action?_wanting {operation : Operation Value} {action : Action}
    (h : action? schema settings operation = some action) (transform : Bool) (path : ValuePath) :
    ∃ other, action? schema (settings.wanting transform) operation = some other ∧
      action.step path = other.step path := by
  rcases action?_cases h with ⟨tag, build, elements, operand, hb, hk, rfl, hall⟩ |
    ⟨tag, build, operand, hb, hi, rfl, hall⟩ | rfl | ⟨source, fallback, rfl⟩
  · rw [hall] at h
    cases h
    refine ⟨_, hall _ _, ?_⟩
    simp only [Action.step, step_setOperand_wanting elements settings transform tag operand]
  · rw [hall] at h
    cases h
    refine ⟨_, hall _ _, ?_⟩
    simp only [Action.step, Operand.step,
      step_startOperand_wanting schema settings transform tag operand]
  · cases h
    exact ⟨_, rfl, rfl⟩
  · cases h
    refine ⟨_, rfl, ?_⟩
    cases fallback with
    | none => rfl
    | some fallback =>
      simp only [Option.map_some, Action.step,
        step_startOperand_wanting schema settings transform .get fallback]

theorem action?_none_wanting {operation : Operation Value}
    (h : action? schema settings operation = none) (transform : Bool) :
    action? schema (settings.wanting transform) operation = none := by
  cases hother : action? schema (settings.wanting transform) operation with
  | none => rfl
  | some other =>
    obtain ⟨action, ha, -⟩ := action?_wanting hother settings.transform .root
    have ha : action? schema settings operation = some action := ha
    rw [h] at ha
    cases ha

end Update

theorem unflagged_update : Unflagged (some Update.extension) where
  handed schema settings transform input given h := by
    obtain ⟨rfl, unknown⟩ := consult_unextended h
    cases hother : Update.consult schema (settings.wanting transform) given with
    | unextended other =>
      obtain ⟨rfl, -⟩ := consult_unextended hother
      exact hother
    | extended parser =>
      obtain ⟨operation, action, rfl, ha, -⟩ := consult_extended hother
      rw [Update.action?_none_wanting (unknown operation rfl) transform] at ha
      cases ha
  owned schema settings transform input parser h := by
    obtain ⟨operation, action, rfl, ha, rfl⟩ := consult_extended h
    obtain ⟨other, hother, hstep⟩ := Update.action?_wanting ha transform settings.path
    simp only [Extension.consult, Update.extension, Update.consult, hother]
    refine ⟨_, rfl, ?_⟩
    rw [step_new, step_new]
    exact hstep

/-! ## The protocol -/

theorem start_eq_new (schema : Schema) (extension : Option Extension) (settings : Settings)
    (input : Option Value) : ∃ stored, start schema extension settings input =
      .new settings.transform (Update.step (start schema extension settings input)) stored := by
  unfold start
  cases fillNode schema extension settings none input with
  | error e => exact ⟨.error e, by rw [step_new]⟩
  | ok filled => exact ⟨filled.store settings.path, by rw [step_new]⟩

/-- Parsers that take the same first step, whether or not a second one is wanted, yield that step
and after it the second one, where it is wanted and the first was no error. -/
theorem exists_steps {parser : Bool → Parser}
    (fresh : ∀ transform, ∃ stored,
      parser transform = .new transform (Update.step (parser transform)) stored)
    (first : ∀ transform, Update.step (parser transform) = Update.step (parser true)) :
    ∃ first second : Outcome, ∀ transform,
      (parser transform).Yields (first :: if transform && first.isOk then [second] else []) ∧
        (parser transform).run = if transform && first.isOk then second else first := by
  obtain ⟨second, hwanted⟩ := fresh true
  refine ⟨Update.step (parser true), second, fun transform => ?_⟩
  cases transform with
  | true =>
    generalize Update.step (parser true) = first at hwanted ⊢
    rw [hwanted]
    exact ⟨Parser.yields_new true first second, Parser.run_new true first second⟩
  | false =>
    obtain ⟨stored, hnew⟩ := fresh false
    rw [hnew, first false]
    exact ⟨Parser.yields_new false _ stored, Parser.run_new false _ stored⟩

/-- A parser yields one outcome, and a second one if that is wanted and the first is no error, and
then nothing, however often it is called; the first outcome does not depend on what is wanted. A
parse ends with the last of these. The parsers with which updates answer operations do the same. -/
theorem two_step_protocol {options : ParseOptions}
    (hx : options.extension = none ∨ options.extension = some Update.extension) (schema : Schema)
    (input : Option Value) :
    (∃ first second : Outcome, ∀ transform : Bool,
      (schema.start (options.wanting transform) input).Yields
          (first :: if transform && first.isOk then [second] else []) ∧
        schema.parse (options.wanting transform) input =
          if transform && first.isOk then second else first) ∧
      ∀ settings operation, (∃ parser,
          Update.consult schema settings (some (.op operation)) = .extended parser) →
        ∃ first second : Outcome, ∀ transform : Bool, ∃ parser,
          Update.consult schema (settings.wanting transform) (some (.op operation)) =
              .extended parser ∧
            parser.Yields (first :: if transform && first.isOk then [second] else []) := by
  constructor
  · have unflagged : Unflagged options.extension := by
      rcases hx with hx | hx
      · rw [hx]
        exact unflagged_none
      · rw [hx]
        exact unflagged_update
    let parser (transform : Bool) :=
      start schema options.extension (options.toSettings.wanting transform) input
    have fresh : ∀ transform, ∃ stored,
        parser transform = .new transform (Update.step (parser transform)) stored :=
      fun transform => start_eq_new _ _ _ _
    exact exists_steps fresh fun transform =>
      step_start_wanting unflagged schema (options.toSettings.wanting transform) true input
  · rintro settings operation ⟨parser, hc⟩
    obtain ⟨_, action, hop, ha, -⟩ := consult_extended hc
    cases hop
    -- The parser that answers, by whether a second step is wanted.
    have recognised : ∀ transform, ∃ stored,
        Update.consult schema (settings.wanting transform) (some (.op operation)) =
          .extended (.new transform (action.step settings.path) stored) := by
      intro transform
      obtain ⟨other, hother, hstep⟩ := Update.action?_wanting ha transform settings.path
      refine ⟨other.rest.step settings.path, ?_⟩
      simp only [Update.consult, hother]
      rw [hstep]
      rfl
    choose stored hanswer using recognised
    have fresh : ∀ transform, ∃ last,
        Parser.new transform (action.step settings.path) (stored transform) =
          .new transform (Update.step (.new transform (action.step settings.path)
            (stored transform))) last :=
      fun transform => ⟨stored transform, by rw [step_new]⟩
    obtain ⟨first, second, steps⟩ := exists_steps fresh fun transform => by
      rw [step_new, step_new]
    exact ⟨first, second, fun transform => ⟨_, hanswer transform, (steps transform).1⟩⟩

/-- A member is added to a set that stores its members with a prefix: with the value to store and
without it. -/
theorem two_step_protocol_added_member :
    let schema := Schema.ofKind (.set ((Schema.scalar .string).transform (.addPrefix "tag" "#")))
    let options := ParseOptions.ofMode .update
    let added := Value.op (.add (.string "a"))
    let stored := Value.op (.add (.string ("tag" ++ "#" ++ "a")))
    (options.extension = none ∨ options.extension = some Update.extension) ∧
      (schema.start options (some added)).Yields [.ok (some added), .ok (some stored)] ∧
      (schema.start (options.wanting false) (some added)).Yields [.ok (some added)] ∧
      schema.parse options (some added) = .ok (some stored) := by
  intro schema options added stored
  have hx : options.extension = none ∨ options.extension = some Update.extension := .inr rfl
  obtain ⟨⟨first, second, steps⟩, -⟩ := two_step_protocol hx schema (some added)
  obtain ⟨wanted, result⟩ := steps true
  obtain ⟨unwanted, -⟩ := steps false
  have hfirst : some (.ok (some added)) = some first := wanted 0
  cases hfirst
  have hsecond : some (.ok (some stored)) = some second := wanted 1
  cases hsecond
  exact ⟨hx, wanted, unwanted, result⟩

end ItemShape
