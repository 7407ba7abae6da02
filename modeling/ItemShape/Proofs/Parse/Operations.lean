import ItemShape.Proofs.Parse.Present
import ItemShape.Proofs.Parse.Update

/-!
# ItemShape.Proofs.Parse.Operations

What a node makes of an operation in update mode, step by step: the operation around what its
operand gives when it is parsed on its own (`operation_steps`).

`Update.operationSteps` is the table of this, by operation and kind. It says nothing of suspended
parsers: `around` puts an operation around one step, `lockstep` takes the steps of several parses
together. An absent step would stay absent in both, so the table also says that no operand is ever
without a value.
-/

namespace ItemShape
namespace Update

/-! ## The table -/

/-- An operation around one step of its operand. -/
def around (build : Value → Operation Value) (outcome : Outcome) : Outcome :=
  outcome.map fun value => value.map fun v => .op (build v)

/-- The values of some outcomes, or the first error among them; absent if one of them is. -/
def collect : List Outcome → Except SchemaError (Option (List Value))
  | [] => .ok (some [])
  | outcome :: rest => outcome.bind fun value => (collect rest).map fun values =>
      value.bind fun v => values.map fun vs => v :: vs

/-- Several parses, taken together for a number of steps: each step has the list of their values at
this step, and an error of one of them is the last step of all. -/
def lockstep : Nat → List (List Outcome) → List Outcome
  | 0, _ => []
  | count + 1, runs =>
    match collect (runs.map fun run => run.headD (.ok none)) with
    | .error e => [.error e]
    | .ok values => .ok (values.map .list) :: lockstep count (runs.map List.tail)

/-- The number of steps of a parse without an error. -/
def stepCount (settings : Settings) : Nat :=
  if settings.transform then 2 else 1

/-- The steps of an operand, parsed on its own one segment below the operation. -/
def operandSteps (settings : Settings) (tag : OpTag) (schema : Schema) (operand : Value) :
    List Outcome :=
  (start schema none ⟨settings.mode, false, settings.transform, settings.path.operation tag⟩
    (some operand)).outcomes

/-- The operand of a set: each member of a list on its own, and anything else as one member. -/
def membersSteps (settings : Settings) (tag : OpTag) (elements : Schema) (operand : Value) :
    List Outcome :=
  match operand with
  | .list members =>
    lockstep (stepCount settings) (members.map (operandSteps settings tag elements))
  | member => operandSteps settings tag elements member

/-- The steps of an operation on a node, by the kind of the node. -/
def operationSteps (schema : Schema) (settings : Settings) (operation : Operation Value) :
    List Outcome :=
  match operation, schema.kind with
  | .add operand, .set elements => (membersSteps settings .add elements operand).map (around .add)
  | .delete operand, .set elements =>
    (membersSteps settings .delete elements operand).map (around .delete)
  | .add operand, .scalar .number => (operandSteps settings .add schema operand).map (around .add)
  | .set operand, .map _ => (operandSteps settings .set schema operand).map (around .set)
  | .set operand, .record _ _ => (operandSteps settings .set schema operand).map (around .set)
  | .set operand, .list _ => (operandSteps settings .set schema operand).map (around .set)
  | .remove, _ =>
    if schema.isRequired .update then [.error (.missing settings.path)]
    else List.replicate (stepCount settings) (.ok (some (.op .remove)))
  | .get source fallback, _ =>
    if source = "" then
      [.error (.mismatch (settings.path.operation .get) "attribute reference" "empty string")]
    else
      match fallback with
      | none => List.replicate (stepCount settings) (.ok (some (.op (.get source none))))
      | some fallback => (operandSteps settings .get schema fallback).map
          (around fun v => .get source (some v))
  | operation, kind => [.error (.mismatch settings.path kind.name.text operation.tag.typeName)]

/-! ## Operands -/

/-- A parser that has not been asked yet, and of which no step will be absent. -/
def Fresh (transform : Bool) (parser : Parser) : Prop :=
  ∃ filled stored, parser = .new transform filled stored ∧ filled ≠ .ok none ∧ stored ≠ .ok none

theorem fresh_startOperand (schema : Schema) (settings : Settings) (tag : OpTag) (operand : Value) :
    Fresh settings.transform (startOperand schema settings tag operand) := by
  unfold startOperand start
  cases h : fillNode schema none (operandSettings settings tag) none (some operand) with
  | error e => exact ⟨_, _, rfl, nofun, nofun⟩
  | ok filled =>
    have hp : filled.Present := fillNode_present h
    obtain ⟨w, hw⟩ := hp.exists_value
    refine ⟨_, _, rfl, by simp [hw], fun hs => hp.stores _ _ hs rfl⟩

/-! ## The steps of an action -/

section

variable {transform : Bool} {build : Value → Operation Value} {path : ValuePath} {parser : Parser}

theorem Fresh.step_ne (h : Fresh transform parser) : Update.step parser ≠ .ok none := by
  obtain ⟨filled, stored, rfl, hf, -⟩ := h
  rwa [step_new]

theorem Fresh.headD_outcomes (h : Fresh transform parser) (default : Outcome) :
    parser.outcomes.headD default = Update.step parser := by
  obtain ⟨filled, stored, rfl, -⟩ := h
  rw [Parser.outcomes_new, step_new]
  cases filled <;> rfl

theorem Fresh.second (h : Fresh true parser) {value : Option Value}
    (hv : Update.step parser = .ok value) :
    Update.step parser.next.2 ≠ .ok none ∧
      ∀ default, parser.outcomes.tail.headD default = Update.step parser.next.2 := by
  obtain ⟨filled, stored, rfl, -, hs⟩ := h
  rw [step_new] at hv
  subst hv
  exact ⟨hs, fun _ => rfl⟩

theorem wrap_step {operand : Operand} (h : operand.step ≠ .ok none) :
    (Action.wrap build operand).step path = around build operand.step := by
  simp only [Action.step]
  cases hs : operand.step with
  | error e => rfl
  | ok value =>
    cases value with
    | none => exact absurd hs h
    | some v => rfl

/-- The steps of an action that puts an operation around each step of one parser. -/
theorem outcomes_around {action : Action} (hp : Fresh transform parser)
    (first : action.step path = around build (Update.step parser))
    (second : Update.step parser.next.2 ≠ .ok none →
      action.rest.step path = around build (Update.step parser.next.2)) :
    (Parser.new transform (action.step path) (action.rest.step path)).outcomes =
      parser.outcomes.map (around build) := by
  obtain ⟨filled, stored, rfl, hf, hs⟩ := hp
  rw [Parser.outcomes_new, Parser.outcomes_new, first, step_new]
  cases filled with
  | error e => rfl
  | ok value =>
    cases transform with
    | false => rfl
    | true =>
      rw [second hs]
      rfl

theorem collect_eq_stepAll {parsers : List Parser}
    (h : ∀ parser ∈ parsers, Update.step parser ≠ .ok none) :
    collect (parsers.map Update.step) = (stepAll parsers).map some := by
  induction parsers with
  | nil => rfl
  | cons parser rest ih =>
    rw [List.forall_mem_cons] at h
    rw [List.map_cons, collect, ih h.2, stepAll]
    cases hs : Update.step parser with
    | error e => rfl
    | ok value =>
      cases value with
      | none => exact absurd hs h.1
      | some v => cases stepAll rest <;> rfl

theorem wrap_many_step {parsers : List Parser}
    (h : ∀ parser ∈ parsers, Update.step parser ≠ .ok none) :
    (Action.wrap build (.many parsers)).step path = around build
      ((collect (parsers.map Update.step)).map fun values => values.map .list) := by
  have hstep : (Operand.many parsers).step =
      (collect (parsers.map Update.step)).map fun values => values.map .list := by
    rw [collect_eq_stepAll h, Operand.step]
    cases stepAll parsers <;> rfl
  rw [← hstep]
  refine wrap_step ?_
  rw [Operand.step]
  cases stepAll parsers <;> simp

theorem step_ok_of_stepAll {parsers : List Parser} {values : List Value}
    (h : stepAll parsers = .ok values) :
    ∀ parser ∈ parsers, ∃ value, Update.step parser = .ok value := by
  induction parsers generalizing values with
  | nil => intro parser hp; cases hp
  | cons parser rest ih =>
    obtain ⟨value, others, hv, hr, -⟩ := stepAll_cons_ok_iff.mp h
    exact List.forall_mem_cons.mpr ⟨⟨value, hv⟩, ih hr⟩

theorem lockstep_succ {count : Nat} {runs : List (List Outcome)} {values : Option (List Value)}
    (h : collect (runs.map fun run => run.headD (.ok none)) = .ok values) :
    lockstep (count + 1) runs = .ok (values.map .list) :: lockstep count (runs.map List.tail) := by
  rw [lockstep, h]

theorem lockstep_one (runs : List (List Outcome)) :
    lockstep 1 runs = [(collect (runs.map fun run => run.headD (.ok none))).map
      fun values => values.map .list] := by
  rw [lockstep]
  cases collect (runs.map fun run => run.headD (.ok none)) <;> rfl

theorem outcomes_wrap_many {parsers : List Parser}
    (hp : ∀ parser ∈ parsers, Fresh transform parser) :
    (Parser.new transform ((Action.wrap build (.many parsers)).step path)
      ((Action.wrap build (.many parsers)).rest.step path)).outcomes =
        (lockstep (if transform then 2 else 1) (parsers.map Parser.outcomes)).map
          (around build) := by
  have hheads : (parsers.map Parser.outcomes).map (fun run => run.headD (.ok none)) =
      parsers.map Update.step := by
    rw [List.map_map]
    exact List.map_congr_left fun parser hm => (hp parser hm).headD_outcomes _
  have hne : ∀ parser ∈ parsers, Update.step parser ≠ .ok none :=
    fun parser hm => (hp parser hm).step_ne
  have hcollect := collect_eq_stepAll hne
  rw [Parser.outcomes_new, wrap_many_step hne]
  cases hall : stepAll parsers with
  | error e =>
    rw [hall] at hcollect
    cases transform with
    | false =>
      simp only [Bool.false_eq_true, if_false, lockstep, hheads, hcollect]
      rfl
    | true =>
      simp only [if_true, lockstep, hheads, hcollect]
      rfl
  | ok values =>
    rw [hall] at hcollect
    cases transform with
    | false =>
      simp only [Bool.false_eq_true, if_false, lockstep, hheads, hcollect]
      rfl
    | true =>
      -- All operands got through their first step, and so have a second one.
      have second : ∀ parser ∈ parsers, Update.step parser.next.2 ≠ .ok none ∧
          ∀ default, parser.outcomes.tail.headD default = Update.step parser.next.2 := by
        intro parser hm
        obtain ⟨value, hv⟩ := step_ok_of_stepAll hall parser hm
        exact (hp parser hm).second hv
      have hne' : ∀ parser ∈ parsers.map (fun parser => parser.next.2),
          Update.step parser ≠ .ok none := by
        intro rest hr
        obtain ⟨parser, hm, rfl⟩ := List.mem_map.mp hr
        exact (second parser hm).1
      have hheads' : ((parsers.map Parser.outcomes).map List.tail).map
          (fun run => run.headD (.ok none)) =
            (parsers.map fun parser => parser.next.2).map Update.step := by
        rw [List.map_map, List.map_map, List.map_map]
        exact List.map_congr_left fun parser hm => (second parser hm).2 _
      have hsecond : (Action.wrap build (.many parsers)).rest.step path = around build
          ((collect ((parsers.map fun parser => parser.next.2).map Update.step)).map
            fun values => values.map .list) := wrap_many_step hne'
      have hsteps : lockstep 2 (parsers.map Parser.outcomes) = .ok (some (.list values)) ::
          lockstep 1 ((parsers.map Parser.outcomes).map List.tail) :=
        lockstep_succ (by rw [hheads, hcollect]; rfl)
      rw [hsecond, if_pos rfl, if_pos rfl, hsteps, lockstep_one, hheads', hcollect]
      rfl

end

/-! ## Nodes -/

theorem outcomes_of_extended {schema : Schema} {extension : Option Extension} {settings : Settings}
    {input : Option Value} {filled stored : Outcome}
    (h : Extension.consult extension schema settings input =
      .extended (.new settings.transform filled stored)) :
    (start schema extension settings input).outcomes =
      (Parser.new settings.transform filled stored).outcomes := by
  obtain ⟨props, kind⟩ := schema
  cases filled with
  | error e =>
    have hfill : fillNode (.mk props kind) extension settings none input = .error e := by
      simp only [fillNode, h, Parser.new, Parser.next]
    rw [start, hfill, Parser.outcomes_new, Parser.outcomes_new]
  | ok value =>
    have hfill : fillNode (.mk props kind) extension settings none input =
        .ok (.extended value (Parser.new settings.transform (.ok value) stored).next.2) :=
      (fillNode_extended_ok_iff h).mpr ⟨value, rfl, rfl⟩
    rw [start, hfill, Parser.outcomes_new, Parser.outcomes_new]
    cases settings.transform <;> rfl

/-- An operation that the kind does not accept is a value of the wrong type. -/
theorem fillKind_operation {kind : Kind Schema} (hu : ∀ members, kind ≠ .anyOf members)
    {transformer : Option Transformer} {extension : Option Extension} {settings : Settings}
    {scope : Option LinkContext} (operation : Operation Value) :
    fillKind kind transformer extension settings scope (.op operation) =
      .error (.mismatch settings.path kind.name.text operation.tag.typeName) := by
  cases kind with
  | scalar kind => cases kind <;> rfl
  | anyOf members => exact absurd rfl (hu members)
  | _ => rfl

theorem outcomes_of_unextended {schema : Schema} (hu : ∀ members, schema.kind ≠ .anyOf members)
    {settings : Settings} {operation : Operation Value}
    (h : action? schema settings operation = none) :
    (start schema (some Update.extension) settings (some (.op operation))).outcomes =
      [.error (.mismatch settings.path schema.kindName.text operation.tag.typeName)] := by
  obtain ⟨props, kind⟩ := schema
  have hu : ∀ members, kind ≠ .anyOf members := hu
  have hc : Extension.consult (some Update.extension) (.mk props kind) settings
      (some (.op operation)) = .unextended (some (.op operation)) := by
    simp only [Extension.consult, Update.extension, consult, h]
  have hfill : fillNode (.mk props kind) (some Update.extension) settings none
      (some (.op operation)) =
        .error (.mismatch settings.path kind.name.text operation.tag.typeName) := by
    rw [fillNode_unextended hc]
    simp only [resolved]
    rw [fillKind_operation hu]
  rw [start, hfill, Parser.outcomes_new]
  rfl

/-! ## Rows of the table -/

variable {schema : Schema} {settings : Settings} {operation : Operation Value}

theorem outcomes_of_action {action : Action} (h : action? schema settings operation = some action) :
    (start schema (some Update.extension) settings (some (.op operation))).outcomes =
      (Parser.new settings.transform (action.step settings.path)
        (action.rest.step settings.path)).outcomes := by
  refine outcomes_of_extended ?_
  simp only [Extension.consult, Update.extension, consult, h]

theorem outcomes_of_one {build : Value → Operation Value} {target : Schema} {tag : OpTag}
    {operand : Value} (h : action? schema settings operation =
      some (.wrap build (.one (startOperand target settings tag operand)))) :
    (start schema (some Update.extension) settings (some (.op operation))).outcomes =
      (operandSteps settings tag target operand).map (around build) := by
  have hp := fresh_startOperand target settings tag operand
  rw [outcomes_of_action h]
  refine outcomes_around hp (wrap_step hp.step_ne) fun second => ?_
  have hne : (Operand.one (startOperand target settings tag operand).next.2).step ≠ .ok none :=
    second
  exact wrap_step hne

theorem outcomes_of_members {build : Value → Operation Value} {elements : Schema} {tag : OpTag}
    {operand : Value} (h : action? schema settings operation =
      some (.wrap build (setOperand elements settings tag operand))) :
    (start schema (some Update.extension) settings (some (.op operation))).outcomes =
      (membersSteps settings tag elements operand).map (around build) := by
  cases operand with
  | list members =>
    have hp : ∀ parser ∈ members.map (startOperand elements settings tag),
        Fresh settings.transform parser := by
      intro parser hm
      obtain ⟨member, -, rfl⟩ := List.mem_map.mp hm
      exact fresh_startOperand _ _ _ _
    rw [outcomes_of_action h, setOperand, outcomes_wrap_many hp, List.map_map]
    rfl
  | _ => exact outcomes_of_one h

theorem outcomes_remove :
    (start schema (some Update.extension) settings (some (.op .remove))).outcomes =
      operationSteps schema settings .remove := by
  have ha : action? schema settings .remove = some (.remove (schema.isRequired .update)) := rfl
  have htable : operationSteps schema settings .remove =
      if schema.isRequired .update then [.error (.missing settings.path)]
      else List.replicate (stepCount settings) (.ok (some (.op .remove))) := rfl
  rw [outcomes_of_action ha, Parser.outcomes_new, htable]
  simp only [Action.step, Action.rest, stepCount]
  cases schema.isRequired .update with
  | true => rfl
  | false => cases settings.transform <;> rfl

theorem get_step {source : String} (hs : source ≠ "") {path : ValuePath} {parser : Parser}
    (h : Update.step parser ≠ .ok none) : (Action.get source (some parser)).step path =
      around (fun v => .get source (some v)) (Update.step parser) := by
  simp only [Action.step, String.isEmpty_iff, if_neg hs]
  cases hv : Update.step parser with
  | error e => rfl
  | ok value =>
    cases value with
    | none => exact absurd hv h
    | some v => rfl

theorem outcomes_get {source : String} {fallback : Option Value} :
    (start schema (some Update.extension) settings (some (.op (.get source fallback)))).outcomes =
      operationSteps schema settings (.get source fallback) := by
  have ha : action? schema settings (.get source fallback) =
      some (.get source (fallback.map (startOperand schema settings .get))) := rfl
  rw [outcomes_of_action ha]
  by_cases hs : source = ""
  · subst hs
    rw [Parser.outcomes_new]
    rfl
  cases fallback with
  | none =>
    have htable : operationSteps schema settings (.get source none) =
        List.replicate (stepCount settings) (.ok (some (.op (.get source none)))) := if_neg hs
    rw [htable, Parser.outcomes_new, stepCount]
    simp only [Action.step, Action.rest, Option.map_none, String.isEmpty_iff, if_neg hs]
    cases settings.transform <;> rfl
  | some fallback =>
    have htable : operationSteps schema settings (.get source (some fallback)) =
        (operandSteps settings .get schema fallback).map
          (around fun v => .get source (some v)) := if_neg hs
    rw [htable]
    have hp := fresh_startOperand schema settings .get fallback
    exact outcomes_around hp (get_step hs hp.step_ne) (get_step hs)

/-- What the context of the node is does not count for an operation. -/
theorem fillNode_operation_unscoped (hu : ∀ members, schema.kind ≠ .anyOf members)
    (scope : Option LinkContext) :
    fillNode schema (some Update.extension) settings scope (some (.op operation)) =
      fillNode schema (some Update.extension) settings none (some (.op operation)) := by
  obtain ⟨props, kind⟩ := schema
  have hu : ∀ members, kind ≠ .anyOf members := hu
  cases hc : Extension.consult (some Update.extension) (.mk props kind) settings
      (some (.op operation)) with
  | extended parser => simp only [fillNode, hc]
  | unextended given =>
    cases conservative_update.handed _ _ _ _ hc
    rw [fillNode_unextended hc, fillNode_unextended hc]
    simp only [resolved, fillKind_operation hu]

end Update

/-- Without an extension an operation is no value for any node. -/
theorem fillNode_operation {schema : Schema} {settings : Settings} {scope : Option LinkContext}
    (operation : Operation Value) (filled : Filled) :
    fillNode schema none settings scope (some (.op operation)) ≠ .ok filled := by
  induction schema using Schema.induct generalizing filled with
  | node props kind ih =>
    intro h
    obtain ⟨hk, -⟩ := fillNode_some_ok_iff.mp h
    by_cases hu : ∃ members, kind = .anyOf members
    · obtain ⟨members, rfl⟩ := hu
      obtain ⟨member, hm, hf⟩ := fillFirst_eq_some (fillKind_anyOf_ok_iff.mp hk)
      exact ih member hm filled hf
    · rw [Update.fillKind_operation fun members hm => hu ⟨members, hm⟩] at hk
      cases hk

/-- In update mode every operation is parsed as the table says, one step after the other, and in
every context alike. -/
theorem operation_steps {schema : Schema} (hu : ∀ members, schema.kind ≠ .anyOf members)
    (settings : Settings) (operation : Operation Value) :
    (start schema (some Update.extension) settings (some (.op operation))).outcomes =
        Update.operationSteps schema settings operation ∧
      ∀ scope, fillNode schema (some Update.extension) settings scope (some (.op operation)) =
        fillNode schema (some Update.extension) settings none (some (.op operation)) := by
  refine ⟨?_, Update.fillNode_operation_unscoped hu⟩
  obtain ⟨props, kind⟩ := schema
  cases operation with
  | add operand =>
    cases kind with
    | set elements => exact Update.outcomes_of_members rfl
    | scalar kind =>
      cases kind with
      | number => exact Update.outcomes_of_one rfl
      | _ => exact Update.outcomes_of_unextended hu rfl
    | _ => exact Update.outcomes_of_unextended hu rfl
  | delete operand =>
    cases kind with
    | set elements => exact Update.outcomes_of_members rfl
    | _ => exact Update.outcomes_of_unextended hu rfl
  | set operand =>
    cases kind with
    | map attributes => exact Update.outcomes_of_one rfl
    | record keys elements => exact Update.outcomes_of_one rfl
    | list elements => exact Update.outcomes_of_one rfl
    | _ => exact Update.outcomes_of_unextended hu rfl
  | remove => exact Update.outcomes_remove
  | get source fallback => exact Update.outcomes_get

/-- Two members are added to a set that stores its members with a prefix. -/
theorem operation_steps_added_members :
    let elements := (Schema.scalar .string).transform (.addPrefix "tag" "#")
    let schema := Schema.ofKind (.set elements)
    let settings : Settings := ⟨.update, true, true, .root⟩
    let added := Operation.add (Value.list [.string "a", .string "b"])
    let stored := Operation.add
      (Value.list [.string ("tag" ++ "#" ++ "a"), .string ("tag" ++ "#" ++ "b")])
    (∀ members, schema.kind ≠ .anyOf members) ∧
      (start schema (some Update.extension) settings (some (.op added))).outcomes =
        [.ok (some (.op added)), .ok (some (.op stored))] := by
  intro elements schema settings added stored
  have hu : ∀ members, schema.kind ≠ .anyOf members := nofun
  obtain ⟨steps, -⟩ := operation_steps hu settings added
  exact ⟨hu, steps.trans rfl⟩

end ItemShape
