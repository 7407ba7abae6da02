import ItemShape.Proofs.Parse.Protocol

/-!
# ItemShape.Proofs.Parse.Relocate

Where a value is parsed shows in the paths of errors, and nowhere else: parsing at another place
gives the same steps, with every error moved below that place (`steps_of_relocated`).

* `ValuePath.under`, and with it `under` for errors, outcomes, settings and parsers: the same thing
  below a base path.
* `Filled.Relocated`: trees of one value whose second steps differ by the base path. The path of a
  tree is built anew in that step.
* `Relocates`: an extension that answers at every place alike.
-/

namespace ItemShape

/-! ## Below a base path -/

/-- The base path, and then the path. -/
def ValuePath.under (base path : ValuePath) : ValuePath :=
  ⟨base.segments ++ path.segments⟩

theorem ValuePath.under_extend (base path : ValuePath) (segment : Segment) :
    base.under (path.extend segment) = (base.under path).extend segment := by
  simp [under, extend]

@[simp] theorem ValuePath.under_root (base : ValuePath) : base.under .root = base := by
  simp [under, root]

/-- The same error further down. -/
def SchemaError.under (base : ValuePath) (e : SchemaError) : SchemaError :=
  { e with path := base.under e.path }

/-- The same value, or the same error further down. -/
def Outcome.under (base : ValuePath) (outcome : Outcome) : Outcome :=
  outcome.mapError (SchemaError.under base)

def Settings.under (base : ValuePath) (settings : Settings) : Settings :=
  settings.at (base.under settings.path)

theorem Settings.under_extend (base : ValuePath) (settings : Settings) (segment : Segment) :
    (settings.under base).at ((settings.under base).path.extend segment) =
      (settings.at (settings.path.extend segment)).under base := by
  simp only [Settings.under, Settings.at, ValuePath.under_extend]

namespace Parser

/-- A parser of the same value further down. -/
def under (base : ValuePath) (parser : Parser) : Parser :=
  { parser with filled := parser.filled.under base, stored := parser.stored.under base }

variable (base : ValuePath) (parser : Parser)

theorem next_under : (parser.under base).next =
    (parser.next.1.map (Outcome.under base), parser.next.2.under base) := by
  obtain ⟨phase, transform, filled, stored⟩ := parser
  cases phase with
  | fill => cases filled <;> rfl
  | transform => rfl
  | exhausted => rfl

theorem step_under : Update.step (parser.under base) = (Update.step parser).under base := by
  simp only [Update.step, next_under]
  cases parser.next.1 <;> rfl

theorem take_under (count : Nat) : take count (parser.under base) =
    (take count parser).map fun step => (step.1.under base, step.2) := by
  induction count generalizing parser with
  | zero => rfl
  | succ count ih =>
    simp only [take, next_under]
    rcases parser.next with ⟨_ | outcome, rest⟩
    · rfl
    · simp only [Option.map_some, ih, List.map_cons]
      rfl

theorem trace_under : (parser.under base).trace =
    parser.trace.map fun step => (step.1.under base, step.2) :=
  take_under base parser parser.remaining

end Parser

/-! ## Trees -/

namespace Filled

variable {base : ValuePath}

/-- Trees of one value, the second of which is stored further down. -/
structure Relocated (base : ValuePath) (f g : Filled) : Prop where
  value : SameValue f g
  store (path : ValuePath) : g.store (base.under path) = (f.store path).under base

theorem storeItems_under {fs gs : List Filled} (h : List.Forall₂ (Relocated base) fs gs)
    (path : ValuePath) (position : Nat) : storeItems (base.under path) position gs =
      (storeItems path position fs).mapError (SchemaError.under base) := by
  induction h generalizing position with
  | nil => rfl
  | @cons f g fs gs hfirst _ ih =>
    simp only [storeItems, ValuePath.index, ← ValuePath.under_extend, hfirst.store, ih]
    cases f.store (path.extend (.index position)) with
    | error e => rfl
    | ok value => cases storeItems path (position + 1) fs <;> rfl

theorem storeMembers_under {fs gs : List Filled} (h : List.Forall₂ (Relocated base) fs gs)
    (path : ValuePath) : storeMembers (base.under path) gs =
      (storeMembers path fs).mapError (SchemaError.under base) := by
  induction h with
  | nil => rfl
  | @cons f g fs gs hfirst _ ih =>
    simp only [storeMembers, hfirst.store, ih]
    cases f.store path with
    | error e => rfl
    | ok value => cases storeMembers path fs <;> rfl

theorem storeSlots_under {slots others : List (Slot Filled)}
    (h : List.Forall₂ (Slot.Rel (Relocated base)) slots others) (path : ValuePath)
    (taken : List String) : storeSlots (base.under path) taken others =
      (storeSlots path taken slots).mapError (SchemaError.under base) := by
  induction h generalizing taken with
  | nil => rfl
  | @cons slot other slots others hfirst _ ih =>
    simp only [storeSlots, ValuePath.member, ← ValuePath.under_extend, ← hfirst.name,
      ← hfirst.stored, hfirst.content.store, ih]
    rcases slot.content.store (path.extend (.member slot.name)) with e | _ | value
    · rfl
    · rfl
    · simp only [Outcome.under, Except.mapError]
      split
      · rfl
      · cases storeSlots path (slot.stored :: taken) slots <;> rfl

theorem storedKey_under (keys : Option Transformer) (key : String) (path : ValuePath) :
    storedKey keys key (base.under path) =
      (storedKey keys key path).mapError (SchemaError.under base) := by
  simp only [storedKey]
  split <;> rfl

theorem storeEntries_under {fs gs : List (String × Filled)}
    (h : Entries.Rel (Relocated base) fs gs) (keys : Option Transformer) (path : ValuePath)
    (taken : List String) : storeEntries (base.under path) keys taken gs =
      (storeEntries path keys taken fs).mapError (SchemaError.under base) := by
  induction h generalizing taken with
  | nil => rfl
  | @cons f g fs gs hfirst _ ih =>
    obtain ⟨hname, hcontent⟩ := hfirst
    simp only [storeEntries, ValuePath.member, ← ValuePath.under_extend, ← hname, hcontent.store,
      storedKey_under, ih]
    rcases f.2.store (path.extend (.member f.1)) with e | _ | value
    · rfl
    · rfl
    · cases storedKey keys f.1 (path.extend (.member f.1)) with
      | error e => rfl
      | ok key =>
        simp only [Outcome.under, Except.mapError]
        split
        · rfl
        · cases storeEntries path keys (key :: taken) fs <;> rfl

theorem relocated_list {fs gs : List Filled} (h : List.Forall₂ (Relocated base) fs gs) :
    Relocated base (.list fs) (.list gs) where
  value := .list (h.imp fun _ _ h => h.value)
  store path := by
    simp only [Filled.store, storeItems_under h]
    cases storeItems path 0 fs <;> rfl

theorem relocated_set {fs gs : List Filled} (h : List.Forall₂ (Relocated base) fs gs) :
    Relocated base (.set fs) (.set gs) where
  value := .set (h.imp fun _ _ h => h.value)
  store path := by
    simp only [Filled.store, storeMembers_under h]
    cases storeMembers path fs <;> rfl

theorem relocated_map {slots others : List (Slot Filled)}
    (h : List.Forall₂ (Slot.Rel (Relocated base)) slots others) :
    Relocated base (.map slots) (.map others) where
  value := .map (h.imp fun _ _ h => ⟨h.name, h.stored, h.content.value⟩)
  store path := by
    simp only [Filled.store, storeSlots_under h]
    cases storeSlots path [] slots <;> rfl

theorem relocated_record {fs gs : List (String × Filled)} (h : Entries.Rel (Relocated base) fs gs)
    (keys : Option Transformer) : Relocated base (.record keys fs) (.record keys gs) where
  value := .record keys (h.imp fun _ _ h => ⟨h.1, h.2.value⟩)
  store path := by
    simp only [Filled.store, storeEntries_under h]
    cases storeEntries path keys [] fs <;> rfl

/-- What an extension has parsed so far, and parses further down. -/
theorem relocated_extended (base : ValuePath) (value : Option Value) (parser : Parser) :
    Relocated base (.extended value parser) (.extended value (parser.under base)) where
  value := rfl
  store path := by
    simp only [Filled.store, Parser.next_under]
    rcases parser.next with ⟨_ | outcome, rest⟩ <;> rfl

end Filled

/-- A parse and the same parse below a base path. -/
def Comparison.relocated (base : ValuePath) : Comparison where
  toScopes := .same
  error e e' := e' = e.under base
  tree := Filled.Relocated base
  settings s s' := s' = s.under base
  mode_eq h := by
    rw [h]
    rfl
  fill_eq h := by
    rw [h]
    rfl
  extend h segment := by
    rw [h]
    exact Settings.under_extend base _ segment
  fails h reason := by
    rw [h]
    rfl
  value h := h.value
  absent := ⟨rfl, fun _ => rfl⟩
  scalar _ _ := ⟨rfl, fun _ => rfl⟩
  list := Filled.relocated_list
  set := Filled.relocated_set
  map := Filled.relocated_map
  record keys _ _ h := Filled.relocated_record h keys

/-! ## Extensions -/

def Consultation.under (base : ValuePath) : Consultation → Consultation
  | unextended input => unextended input
  | extended parser => extended (parser.under base)

/-- An extension that answers at every place alike. -/
def Relocates (extension : Option Extension) : Prop :=
  ∀ base schema settings input,
    Extension.consult extension schema (settings.under base) input =
      (Extension.consult extension schema settings input).under base

theorem relocates_none : Relocates none :=
  fun _ _ _ _ => rfl

theorem Relocates.aligns {extension : Option Extension} (hx : Relocates extension)
    (base : ValuePath) : (Comparison.relocated base).Aligns extension := by
  rintro schema s _ input rfl
  rw [hx]
  cases Extension.consult extension schema s input with
  | unextended given => exact .unextended given
  | extended parser =>
    refine .extended ?_
    rw [Parser.next_under]
    rcases parser.next with ⟨_ | e | value, rest⟩
    · exact .ok (Filled.relocated_extended base none rest)
    · exact .error rfl
    · exact .ok (Filled.relocated_extended base value rest)

/-- Parsing below a base path. -/
theorem start_under {extension : Option Extension} (hx : Relocates extension) (schema : Schema)
    (base : ValuePath) (settings : Settings) (input : Option Value) :
    start schema extension (settings.under base) input =
      (start schema extension settings input).under base := by
  have resolves : schema.Everywhere (Comparison.relocated base).Resolves := by
    rintro node - s _ scope _ given rfl rfl
    rfl
  have agree : Agree (fun e e' => e' = e.under base) (Filled.Relocated base)
      (fillNode schema extension settings none input)
      (fillNode schema extension (settings.under base) none input) :=
    Comparison.fills resolves extension (hx.aligns base) settings _ none none input rfl rfl
  unfold start
  obtain ⟨e, _, hf, hg, rfl⟩ | ⟨f, g, hf, hg, hmoved⟩ := agree.cases
  · simp only [hf, hg]
    rfl
  · have hvalue : f.value? = g.value? := hmoved.value
    have hstore : g.store (settings.under base).path = (f.store settings.path).under base :=
      hmoved.store settings.path
    simp only [hf, hg, hstore, ← hvalue]
    rfl

/-! ## Operations -/

namespace Update

variable (base : ValuePath)

theorem operandSettings_under (settings : Settings) (tag : OpTag) :
    operandSettings (settings.under base) tag = (operandSettings settings tag).under base := by
  simp only [operandSettings, Settings.under, Settings.at, ValuePath.operation,
    ValuePath.under_extend]

theorem startOperand_under (schema : Schema) (settings : Settings) (tag : OpTag)
    (operand : Value) : startOperand schema (settings.under base) tag operand =
      (startOperand schema settings tag operand).under base := by
  rw [startOperand, operandSettings_under, start_under relocates_none]
  rfl

theorem stepAll_under (parsers : List Parser) : stepAll (parsers.map (Parser.under base)) =
    (stepAll parsers).mapError (SchemaError.under base) := by
  induction parsers with
  | nil => rfl
  | cons parser rest ih =>
    simp only [List.map_cons, stepAll, Parser.step_under, ih]
    cases step parser with
    | error e => rfl
    | ok value => cases stepAll rest <;> rfl

def Operand.under : Operand → Operand
  | one parser => one (parser.under base)
  | many parsers => many (parsers.map (Parser.under base))

theorem Operand.step_under (operand : Operand) :
    (operand.under base).step = operand.step.under base := by
  cases operand with
  | one parser => exact Parser.step_under base parser
  | many parsers =>
    simp only [Operand.under, Operand.step, stepAll_under]
    cases stepAll parsers <;> rfl

theorem Operand.rest_under (operand : Operand) :
    (operand.under base).rest = operand.rest.under base := by
  cases operand with
  | one parser => simp only [Operand.under, Operand.rest, Parser.next_under]
  | many parsers =>
    simp only [Operand.under, Operand.rest, List.map_map]
    congr 1
    exact List.map_congr_left fun parser _ => by simp only [Function.comp, Parser.next_under]

theorem setOperand_under (elements : Schema) (settings : Settings) (tag : OpTag)
    (operand : Value) : setOperand elements (settings.under base) tag operand =
      (setOperand elements settings tag operand).under base := by
  cases operand with
  | list members =>
    simp only [setOperand, Operand.under, List.map_map]
    congr 1
    exact List.map_congr_left fun member _ => startOperand_under base elements settings tag member
  | _ => exact congrArg Operand.one (startOperand_under base elements settings tag _)

def Action.under : Action → Action
  | wrap build operand => wrap build (operand.under base)
  | remove required => remove required
  | get source fallback => get source (fallback.map (Parser.under base))

theorem Action.step_under (action : Action) (path : ValuePath) :
    (action.under base).step (base.under path) = (action.step path).under base := by
  cases action with
  | wrap build operand =>
    simp only [Action.under, Action.step, Operand.step_under]
    cases operand.step <;> rfl
  | remove required => cases required <;> rfl
  | get source fallback =>
    simp only [Action.under, Action.step, ValuePath.operation, ← ValuePath.under_extend]
    cases source.isEmpty with
    | true => rfl
    | false =>
      cases fallback with
      | none => rfl
      | some parser =>
        simp only [Option.map_some, Parser.step_under]
        cases Update.step parser <;> rfl

theorem Action.rest_under (action : Action) :
    (action.under base).rest = action.rest.under base := by
  cases action with
  | wrap build operand => simp only [Action.under, Action.rest, Operand.rest_under]
  | remove required => rfl
  | get source fallback =>
    cases fallback with
    | none => rfl
    | some parser =>
      simp only [Action.under, Action.rest, Option.map_some, Parser.next_under]

/-- A node recognises the same operations at every place. -/
theorem action?_under (schema : Schema) (settings : Settings) (operation : Operation Value) :
    action? schema (settings.under base) operation =
      (action? schema settings operation).map (Action.under base) := by
  obtain ⟨props, kind⟩ := schema
  cases operation with
  | add operand =>
    cases kind with
    | set elements =>
      exact congrArg (fun operand => some (Action.wrap .add operand))
        (setOperand_under base elements settings .add operand)
    | scalar kind =>
      cases kind with
      | number =>
        exact congrArg (fun parser => some (Action.wrap .add (.one parser)))
          (startOperand_under base _ settings .add operand)
      | _ => rfl
    | _ => rfl
  | delete operand =>
    cases kind with
    | set elements =>
      exact congrArg (fun operand => some (Action.wrap .delete operand))
        (setOperand_under base elements settings .delete operand)
    | _ => rfl
  | set payload =>
    have moved : some (Action.wrap .set (.one
          (startOperand (.mk props kind) (settings.under base) .set payload))) =
        some (Action.wrap .set (.one
          ((startOperand (.mk props kind) settings .set payload).under base))) :=
      congrArg (fun parser => some (Action.wrap .set (.one parser)))
        (startOperand_under base _ settings .set payload)
    cases kind with
    | map _ => exact moved
    | record _ _ => exact moved
    | list _ => exact moved
    | _ => rfl
  | remove => rfl
  | get source fallback =>
    cases fallback with
    | none => rfl
    | some fallback =>
      exact congrArg (fun parser => some (Action.get source (some parser)))
        (startOperand_under base _ settings .get fallback)

end Update

theorem relocates_update : Relocates (some Update.extension) := by
  intro base schema settings input
  simp only [Extension.consult, Update.extension]
  cases input with
  | none => rfl
  | some v =>
    cases v with
    | op operation =>
      simp only [Update.consult, Update.action?_under]
      cases Update.action? schema settings operation with
      | none => rfl
      | some action =>
        have hfirst : (action.under base).step (settings.under base).path =
            (action.step settings.path).under base := action.step_under base settings.path
        have hsecond : (action.under base).rest.step (settings.under base).path =
            (action.rest.step settings.path).under base := by
          rw [Update.Action.rest_under]
          exact action.rest.step_under base settings.path
        simp only [Option.map_some, hfirst, hsecond]
        rfl
    | _ => rfl

/-! ## Parsing -/

/-- Parsing at a place gives the steps of parsing at the root: the same values, and the errors of
the same reasons, with the place put before their paths. This holds of both steps, and of errors
inside operations. -/
theorem steps_of_relocated {options : ParseOptions}
    (hx : options.extension = none ∨ options.extension = some Update.extension) (schema : Schema)
    (base : ValuePath) (input : Option Value) :
    (schema.start { options with path := base } input).trace =
      (schema.start { options with path := .root } input).trace.map fun step =>
        (step.1.under base, step.2) := by
  have relocates : Relocates options.extension := by
    rcases hx with hx | hx
    · rw [hx]
      exact relocates_none
    · rw [hx]
      exact relocates_update
  have moved := start_under relocates schema base (options.toSettings.at .root) input
  have hbase : (options.toSettings.at .root).under base = options.toSettings.at base := by
    simp only [Settings.under, Settings.at, ValuePath.under_root]
  rw [hbase] at moved
  have hparser : schema.start { options with path := base } input =
      (schema.start { options with path := .root } input).under base := moved
  rw [hparser, Parser.trace_under]

/-- The second line of an order, with a number added to its tags and with a text. -/
theorem steps_of_relocated_added_member :
    let schema := Schema.ofKind (.map [("tags", .ofKind (.set
      ((Schema.scalar .string).transform (.addPrefix "tag" "#"))))])
    let options := ParseOptions.ofMode .update
    let base : ValuePath := ⟨[.member "lines", .index 1]⟩
    let added (v : Value) := some (Value.map [("tags", .op (.add (.list [v])))])
    let count := Value.number (.int 7 (by decide))
    let place : ValuePath := ⟨[.member "lines", .index 1, .member "tags", .operation .add]⟩
    (options.extension = none ∨ options.extension = some Update.extension) ∧
      (schema.start { options with path := base } (added count)).trace =
        [(.error (.mismatch place "string" "number"), true)] ∧
      (schema.start { options with path := base } (added (.string "new"))).trace =
        [(.ok (added (.string "new")), false),
          (.ok (added (.string ("tag" ++ "#" ++ "new"))), true)] := by
  intro schema options base added count place
  have hx : options.extension = none ∨ options.extension = some Update.extension := .inr rfl
  refine ⟨hx, ?_, ?_⟩
  · rw [steps_of_relocated hx schema base (added count)]
    rfl
  · rw [steps_of_relocated hx schema base (added (.string "new"))]
    rfl

end ItemShape
