import ItemShape.Proofs.Parse.Conservative
import ItemShape.Proofs.Parse.Steps

/-!
# ItemShape.Proofs.Parse.Update

The extension of update mode keeps the operations it takes over (`conservative_update`): the tag
stays, and the operand comes out equal, as it is filled without filling and without an extension.
With that, filling is conservative in every mode (`fill_conservative`). Which operations these are
is said once, in `action?_cases`.
-/

namespace ItemShape

section Update

variable {schema : Schema} {settings : Settings} {tag : OpTag}

theorem startOperand_keeps (hs : schema.WellFormed) {operand : Value} (hd : operand.DistinctNames)
    {value : Option Value}
    (h : Update.step (Update.startOperand schema settings tag operand) = .ok value) :
    ∃ w, value = some w ∧ (schema.considered settings.mode operand).equal w = true ∧
      w.DistinctNames := by
  obtain ⟨filled, hf, rfl⟩ := step_start_ok_iff.mp h
  obtain ⟨w, hw, hk⟩ := fillNode_keeps conservative_none hs (Update.operandSettings settings tag)
    (settings.path.operation tag) _ _ _ hd hf
  exact ⟨w, hw, hk.equal (schema.distinctNames_considered _ hd)⟩

theorem Update.stepAll_cons (parser : Parser) (rest : List Parser) :
    Update.stepAll (parser :: rest) = (Update.step parser).bind fun value =>
      (Update.stepAll rest).map fun values => value.toList ++ values := by
  rw [Update.stepAll]
  cases Update.step parser with
  | error e => rfl
  | ok value =>
    dsimp only [Except.bind]
    cases Update.stepAll rest <;> rfl

theorem Update.stepAll_cons_ok_iff {parser : Parser} {rest : List Parser} {values : List Value} :
    Update.stepAll (parser :: rest) = .ok values ↔
      ∃ value others, Update.step parser = .ok value ∧ Update.stepAll rest = .ok others ∧
        value.toList ++ others = values := by
  rw [Update.stepAll_cons]
  cases Update.step parser with
  | error e => simp [Except.bind]
  | ok value => cases Update.stepAll rest <;> simp [Except.bind, Except.map]

theorem stepAll_keeps (hs : schema.WellFormed) (hi : schema.isItem = false) {members : List Value}
    (hd : ∀ member ∈ members, member.DistinctNames) {values : List Value}
    (h : Update.stepAll (members.map (Update.startOperand schema settings tag)) = .ok values) :
    List.Forall₂ (fun v w => v.equal w = true ∧ w.DistinctNames) members values := by
  induction members generalizing values with
  | nil =>
    cases h
    exact .nil
  | cons member rest ih =>
    rw [List.forall_mem_cons] at hd
    obtain ⟨value, others, hv, ho, rfl⟩ := Update.stepAll_cons_ok_iff.mp h
    obtain ⟨w, rfl, hw⟩ := startOperand_keeps hs hd.1 hv
    rw [Schema.considered_of_not_item hi] at hw
    exact .cons hw (ih hd.2 ho)

theorem setOperand_keeps (hs : schema.WellFormed) (hi : schema.isItem = false) {operand : Value}
    (hd : operand.DistinctNames) {value : Option Value}
    (h : (Update.setOperand schema settings tag operand).step = .ok value) :
    ∃ w, value = some w ∧ operand.equal w = true ∧ w.DistinctNames := by
  have single : Update.step (Update.startOperand schema settings tag operand) = .ok value →
      ∃ w, value = some w ∧ operand.equal w = true ∧ w.DistinctNames := by
    intro h
    obtain ⟨w, hv, hw⟩ := startOperand_keeps hs hd h
    rw [Schema.considered_of_not_item hi] at hw
    exact ⟨w, hv, hw⟩
  cases operand with
  | list members =>
    simp only [Update.setOperand, Update.Operand.step] at h
    split at h
    · cases h
    · rename_i values hv
      cases h
      rw [Value.distinctNames_list] at hd
      have hm := stepAll_keeps hs hi hd hv
      refine ⟨_, rfl, Value.equal_list_iff.mpr ⟨values, rfl, hm.imp fun _ _ h => h.1⟩, ?_⟩
      exact Value.distinctNames_list.mpr (forall₂_right (hm.imp fun _ _ h => h.2))
  | _ => exact single h

/-- The operations that have an operand, by tag. -/
inductive Carries : OpTag → (Value → Operation Value) → Prop where
  | add : Carries .add .add
  | delete : Carries .delete .delete
  | set : Carries .set .set

theorem Carries.rel {build : Value → Operation Value} (h : Carries tag build)
    {R : Value → Value → Prop} {v w : Value} (hr : R v w) : (build v).Rel R (build w) := by
  cases h with
  | add => exact .add hr
  | delete => exact .delete hr
  | set => exact .set hr

theorem Carries.distinctNames_iff {build : Value → Operation Value} (h : Carries tag build)
    {w : Value} : (Value.op (build w)).DistinctNames ↔ w.DistinctNames := by
  cases h <;> exact Iff.rfl

/-- What a node recognises: additions to and deletions from a set, other operations with an operand
that is parsed as a whole, and the two that every node accepts. -/
theorem action?_cases {operation : Operation Value} {action : Update.Action}
    (h : Update.action? schema settings operation = some action) :
    (∃ tag build elements operand, Carries tag build ∧ schema.kind = .set elements ∧
      operation = build operand ∧ ∀ settings w, Update.action? schema settings (build w) =
        some (.wrap build (Update.setOperand elements settings tag w))) ∨
    (∃ tag build operand, Carries tag build ∧ schema.isItem = false ∧
      operation = build operand ∧ ∀ settings w, Update.action? schema settings (build w) =
        some (.wrap build (.one (Update.startOperand schema settings tag w)))) ∨
    operation = .remove ∨ ∃ source fallback, operation = .get source fallback := by
  obtain ⟨props, kind⟩ := schema
  cases operation with
  | add operand =>
    cases kind with
    | set elements => exact .inl ⟨_, _, elements, operand, .add, rfl, rfl, fun _ _ => rfl⟩
    | scalar kind =>
      cases kind with
      | number => exact .inr (.inl ⟨_, _, operand, .add, rfl, rfl, fun _ _ => rfl⟩)
      | _ => cases h
    | _ => cases h
  | delete operand =>
    cases kind with
    | set elements => exact .inl ⟨_, _, elements, operand, .delete, rfl, rfl, fun _ _ => rfl⟩
    | _ => cases h
  | set operand =>
    cases kind with
    | map attributes => exact .inr (.inl ⟨_, _, operand, .set, rfl, rfl, fun _ _ => rfl⟩)
    | record keys elements => exact .inr (.inl ⟨_, _, operand, .set, rfl, rfl, fun _ _ => rfl⟩)
    | list elements => exact .inr (.inl ⟨_, _, operand, .set, rfl, rfl, fun _ _ => rfl⟩)
    | _ => cases h
  | remove => exact .inr (.inr (.inl rfl))
  | get source fallback => exact .inr (.inr (.inr ⟨source, fallback, rfl⟩))

theorem consult_map {extension : Option Extension}
    (hx : extension = none ∨ extension = some Update.extension) (schema : Schema)
    (settings : Settings) (input : List (String × Value)) :
    Extension.consult extension schema settings (some (.map input)) =
      .unextended (some (.map input)) := by
  rcases hx with rfl | rfl
  · rfl
  · rfl

/-- What is handed back is the input, and no operation that the node recognises. -/
theorem consult_unextended {input given : Option Value}
    (h : Update.consult schema settings input = .unextended given) : given = input ∧
      ∀ operation, input = some (.op operation) →
        Update.action? schema settings operation = none := by
  cases input with
  | none =>
    cases h
    exact ⟨rfl, fun _ hn => by cases hn⟩
  | some v =>
    cases v with
    | op operation =>
      simp only [Update.consult] at h
      split at h
      · cases h
      · rename_i ha
        cases h
        refine ⟨rfl, fun other ho => ?_⟩
        cases ho
        exact ha
    | _ =>
      cases h
      exact ⟨rfl, fun _ hn => by cases hn⟩

/-- A node is taken over if the input is an operation that it recognises; the parser carries it
out. -/
theorem consult_extended {input : Option Value} {parser : Parser}
    (h : Update.consult schema settings input = .extended parser) :
    ∃ operation action, input = some (.op operation) ∧
      Update.action? schema settings operation = some action ∧
        parser = .new settings.transform (action.step settings.path)
          (action.rest.step settings.path) := by
  cases input with
  | none => cases h
  | some v =>
    cases v with
    | op operation =>
      simp only [Update.consult] at h
      split at h
      · rename_i action ha
        cases h
        exact ⟨operation, action, rfl, ha, rfl⟩
      · cases h
    | _ => cases h

theorem wrap_keeps {build : Value → Operation Value} {operand : Value} {held : Update.Operand}
    {path : ValuePath} {value : Option Value} (hb : Carries tag build)
    (hi : schema.isItem = false)
    (ho : ∀ value, held.step = .ok value →
      ∃ w, value = some w ∧ operand.equal w = true ∧ w.DistinctNames)
    (h : (Update.Action.wrap build held).step path = .ok value) :
    ∃ w, value = some w ∧ Keeps settings.mode settings.fill schema
      (schema.considered settings.mode (.op (build operand))) w := by
  simp only [Update.Action.step] at h
  split at h
  · cases h
  · rename_i held hv
    cases h
    obtain ⟨w, rfl, he, hd⟩ := ho held hv
    rw [Schema.considered_of_not_item hi]
    exact ⟨_, rfl, .operation (hb.rel he) (hb.distinctNames_iff.mpr hd)⟩

end Update

theorem action_keeps {schema : Schema} {settings : Settings} {operation : Operation Value}
    {action : Update.Action} {value : Option Value} (wf : schema.WellFormed)
    (hd : (Value.op operation).DistinctNames)
    (ha : Update.action? schema settings operation = some action)
    (h : action.step settings.path = .ok value) :
    ∃ w, value = some w ∧ Keeps settings.mode settings.fill schema
      (schema.considered settings.mode (.op operation)) w := by
  rcases action?_cases ha with ⟨tag, build, elements, operand, hb, hk, rfl, hall⟩ |
    ⟨tag, build, operand, hb, hi, rfl, hall⟩ | rfl | ⟨source, fallback, rfl⟩
  · rw [hall] at ha
    cases ha
    obtain ⟨props, kind⟩ := schema
    cases (hk : kind = .set elements)
    obtain ⟨helement, _⟩ : elements.IsElement ∧ ∃ kind, elements.kind = .scalar kind := wf.root
    have hd := hb.distinctNames_iff.mp hd
    exact wrap_keeps hb rfl
      (fun _ hv => setOperand_keeps (wf.child List.mem_cons_self) helement.notItem hd hv) h
  · rw [hall] at ha
    cases ha
    refine wrap_keeps hb hi (fun value hv => ?_) h
    obtain ⟨w, rfl, hw⟩ := startOperand_keeps wf (hb.distinctNames_iff.mp hd) hv
    rw [Schema.considered_of_not_item hi] at hw
    exact ⟨w, rfl, hw⟩
  · cases ha
    simp only [Update.Action.step] at h
    split at h
    · cases h
    · cases h
      have hc : schema.considered settings.mode (.op .remove) = .op .remove := by
        simp [Schema.considered, Schema.keyPart]
      rw [hc]
      exact ⟨_, rfl, .operation .remove trivial⟩
  · cases ha
    simp only [Update.Action.step] at h
    rw [Schema.considered_op_get]
    split at h
    · cases h
    · cases fallback with
      | none =>
        cases h
        exact ⟨_, rfl, .operation (.get source .none) trivial⟩
      | some fallback =>
        simp only [Option.map_some] at h
        split at h
        · cases h
        · rename_i held hv
          cases h
          rw [Value.distinctNames_op] at hd
          obtain ⟨w, rfl, he, hw⟩ := startOperand_keeps wf (hd fallback rfl) hv
          exact ⟨_, rfl, .operation (.get source (.some he)) hw⟩

theorem conservative_update : Conservative (some Update.extension) where
  absent _ _ := rfl
  handed _ _ _ _ h := (consult_unextended h).1
  owned schema settings v parser value wf hd h hv := by
    obtain ⟨operation, action, hop, ha, rfl⟩ := consult_extended h
    cases hop
    exact action_keeps wf hd ha ((step_new _ _ _).symm.trans hv)

theorem conservative_of_extension {extension : Option Extension}
    (hx : extension = none ∨ extension = some Update.extension) : Conservative extension := by
  rcases hx with rfl | rfl
  · exact conservative_none
  · exact conservative_update

/-- Filling is conservative: what the first step yields contains the input, and is equal to it where
nothing is filled. In key mode the input counts with the key attributes of its item only. -/
theorem fill_conservative {schema : Schema} {options : ParseOptions} {v : Value} {f : Option Value}
    (hb : schema.Built)
    (hx : options.extension = none ∨ options.extension = some Update.extension)
    (hd : v.DistinctNames) (h : schema.FillsTo options (some v) f) :
    ∃ w, f = some w ∧ Keeps options.mode options.fill schema (schema.considered options.mode v) w ∧
      (options.fill = false → (schema.considered options.mode v).equal w = true) := by
  obtain ⟨filled, hf, rfl⟩ := Schema.fillsTo_iff.mp h
  obtain ⟨w, hw, hk⟩ :=
    fillNode_keeps (conservative_of_extension hx) hb.wellFormed options.toSettings options.path _ _ _
      hd hf
  refine ⟨w, hw, hk, fun hoff => ?_⟩
  rw [hoff] at hk
  exact (hk.equal (schema.distinctNames_considered _ hd)).1

/-- A map with a default, and an update that adds to a set inside it. -/
theorem fill_conservative_defaulted_map :
    let schema := Schema.ofKind (.map [("tags", .ofKind (.set (.scalar .string))),
      ("open", (Schema.scalar .boolean).defaultIn .update (.value (.bool true)))])
    let added := Value.op (.add (.string "new"))
    ∃ w, some (Value.map [("tags", added), ("open", .bool true)]) = some w ∧
      Keeps .update true schema (schema.considered .update (.map [("tags", added)])) w ∧
        (true = false → (schema.considered .update (.map [("tags", added)])).equal w = true) := by
  intro schema added
  have built : schema.Built := by
    refine .map (fun entry he => ?_) (rfl : Schema.map? [("tags", .ofKind (.set (.scalar .string))),
      ("open", (Schema.scalar .boolean).defaultIn .update (.value (.bool true)))] = _)
    rcases List.mem_cons.mp he with rfl | he
    · exact .set (.scalar .string) rfl
    · cases List.mem_singleton.mp he
      exact .withProps (.scalar .boolean) fun props =>
        { props with defaults := props.defaults.set .update (.value (.bool true)) }
  have distinct : (Value.map [("tags", added)]).DistinctNames :=
    Value.distinctNames_map.mpr ⟨by decide, fun entry he => by
      cases List.mem_singleton.mp he
      exact trivial⟩
  have filled : schema.FillsTo (.ofMode .update) (some (.map [("tags", added)]))
      (some (.map [("tags", added), ("open", .bool true)])) := ⟨_, rfl⟩
  exact fill_conservative built (.inr rfl) distinct filled

end ItemShape
