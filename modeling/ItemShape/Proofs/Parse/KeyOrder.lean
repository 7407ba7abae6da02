import ItemShape.Proofs.Parse.Alike
import ItemShape.Proofs.Parse.Update

/-!
# ItemShape.Proofs.Parse.KeyOrder

Parsing respects the equality of values, so the order in which a caller writes the keys of maps
decides nothing but the order of keys (`steps_of_alike`).

* `Schema.Coherent`: what the functions of a schema must not tell apart.
* `Impartial`: an extension that answers alike inputs alike.
* `fillNode_alike`: alike inputs are filled to alike trees, by induction on the schema. Only a
  record follows the order of its input (`fillEntries_perm`).
-/

namespace ItemShape

/-! ## Contexts -/

/-- Equal maps at every level. -/
structure LinkContext.Alike (context other : LinkContext) : Prop where
  siblings : Value.Alike (.map context.siblings) (.map other.siblings)
  ancestors : List.Forall₂ (fun members others => Value.Alike (.map members) (.map others))
    context.ancestors other.ancestors

theorem LinkContext.alike_nested {scope scope' : Option LinkContext}
    (hs : Option.Rel LinkContext.Alike scope scope') {siblings siblings' : List (String × Value)}
    (h : Siblings Value.Alike siblings siblings') :
    (nested scope siblings).Alike (nested scope' siblings') := by
  have hsiblings : Value.Alike (.map siblings) (.map siblings') :=
    Value.alike_map_iff.mpr ⟨siblings', rfl, h.distinct, h.rel.matches⟩
  cases hs with
  | none => exact ⟨hsiblings, .nil⟩
  | some hscope => exact ⟨hsiblings, .cons hscope.siblings hscope.ancestors⟩

/-! ## Schemas -/

/-- The link and the transformer of the node take equal arguments to equal results; its default has
distinct names, as every value that a document can hold. -/
structure Schema.Respects (mode : Mode) (schema : Schema) : Prop where
  defaulted : ∀ default, schema.default? mode = some default → default.resolve.DistinctNames
  linked : ∀ link, schema.link? mode = some link → ∀ context other : LinkContext,
    context.Alike other → Option.Rel Value.Alike (link context) (link other)
  encoded : ∀ transformer, schema.transformer? = some transformer → ∀ v w : Value, v.Alike w →
    (transformer.encode v).Alike (transformer.encode w)

theorem Schema.respects_ofKind (mode : Mode) (kind : Kind Schema) :
    (ofKind kind).Respects mode where
  defaulted _ h := by cases mode <;> cases h
  linked _ h := by cases mode <;> cases h
  encoded _ h := by cases h

/-- Putting a text before strings does not tell equal values apart. -/
theorem Transformer.alike_addPrefix (text delimiter : String) {v w : Value} (h : v.Alike w) :
    ((addPrefix text delimiter).encode v).Alike ((addPrefix text delimiter).encode w) := by
  have he : v.equal w = true := h.equal
  cases v with
  | string s =>
    cases w <;> simp only [Value.equal, beq_iff_eq, Bool.false_eq_true] at he
    subst he
    exact .refl trivial
  | _ =>
    cases w with
    | string s => simp [Value.equal] at he
    | _ => exact h

/-- A well-formed schema whose functions do not tell equal arguments apart. -/
structure Schema.Coherent (mode : Mode) (schema : Schema) : Prop where
  wellFormed : schema.WellFormed
  uniform : schema.Uniform mode
  respects : schema.Everywhere (Respects mode)

theorem Schema.Coherent.child {mode : Mode} {schema child : Schema} (h : schema.Coherent mode)
    (hc : child ∈ schema.children) : child.Coherent mode :=
  ⟨h.wellFormed.child hc, h.uniform.child hc, h.respects.child hc⟩

/-! ## Extensions -/

/-- Both inputs are handed back, or parsed alike. -/
inductive Consultation.Alike : Consultation → Consultation → Prop where
  | unextended {given given' : Option Value} (h : Option.Rel Value.Alike given given') :
    Alike (.unextended given) (.unextended given')
  | extended {parser other : Parser} (h : parser.Alike other) :
    Alike (.extended parser) (.extended other)

theorem Consultation.Alike.cases {answer other : Consultation} (h : answer.Alike other) :
    (∃ parser parser', answer = .extended parser ∧ other = .extended parser' ∧
      parser.Alike parser') ∨
    ∃ given given', answer = .unextended given ∧ other = .unextended given' ∧
      Option.Rel Value.Alike given given' := by
  cases h with
  | unextended h => exact .inr ⟨_, _, rfl, rfl, h⟩
  | extended h => exact .inl ⟨_, _, rfl, rfl, h⟩

/-- An extension that answers alike inputs alike. -/
def Impartial (mode : Mode) (extension : Option Extension) : Prop :=
  ∀ schema settings, schema.Coherent mode → settings.mode = mode → ∀ input input',
    Option.Rel Value.Alike input input' →
      Consultation.Alike (Extension.consult extension schema settings input)
        (Extension.consult extension schema settings input')

theorem impartial_none (mode : Mode) : Impartial mode none :=
  fun _ _ _ _ _ _ h => .unextended h

/-- Alike inputs are filled to alike trees, or both are rejected. -/
def Schema.FillsAlike (mode : Mode) (schema : Schema) : Prop :=
  ∀ extension settings scope scope' input input', Impartial mode extension → settings.mode = mode →
    Option.Rel LinkContext.Alike scope scope' → Option.Rel Value.Alike input input' →
      Agree (fun _ _ => True) Filled.Alike (fillNode schema extension settings scope input)
        (fillNode schema extension settings scope' input')

/-! ## Checks -/

section Checks

variable {props : Props} {kind : Kind Schema} {settings : Settings}

theorem scalarMatches_eq_of_alike {kind : ScalarKind} {v w : Value} (h : v.Alike w) :
    scalarMatches kind v = scalarMatches kind w := by
  have he : v.equal w = true := h.equal
  cases v <;> cases w <;> first | (cases kind <;> rfl) | simp [Value.equal] at he

theorem checkFilled_alike (hs : (Schema.mk props kind).Coherent settings.mode) {f g : Filled}
    (h : f.Alike g) : Agree (fun _ _ => True) (fun _ _ => True)
      (checkFilled props kind.name settings f) (checkFilled props kind.name settings g) := by
  rcases rel_cases h.value with ⟨hv, hw⟩ | ⟨v, w, hv, hw, halike⟩
  · simp only [checkFilled, hv, hw]
    exact .ok trivial
  · have allow : props.Allow settings.mode v ↔ props.Allow settings.mode w :=
      hs.uniform.allow_iff halike.distinct halike.distinct' halike.equal
    refine Agree.of_ok (fun _ hf => ⟨(), ?_, trivial⟩) fun _ hg => ⟨(), ?_⟩
    · exact (checkFilled_ok_iff hw).mpr (allow.mp ((checkFilled_ok_iff hv).mp hf))
    · exact (checkFilled_ok_iff hv).mpr (allow.mpr ((checkFilled_ok_iff hw).mp hg))

theorem resolved_alike (hr : (Schema.mk props kind).Respects settings.mode)
    {scope scope' : Option LinkContext} (hs : Option.Rel LinkContext.Alike scope scope')
    {given given' : Option Value} (h : Option.Rel Value.Alike given given') :
    Option.Rel Value.Alike (resolved props settings scope given)
      (resolved props settings scope' given') := by
  cases h with
  | some h => exact .some h
  | none =>
    have defaulted : Option.Rel Value.Alike
        ((props.defaults.get? settings.mode).map Default.resolve)
        ((props.defaults.get? settings.mode).map Default.resolve) := by
      cases hd : props.defaults.get? settings.mode with
      | none => exact .none
      | some default => exact .some (.refl (hr.defaulted default hd))
    simp only [resolved, resolveMissing]
    split
    · cases hl : props.links.get? settings.mode with
      | none => exact defaulted
      | some link =>
        cases hs with
        | none => exact defaulted
        | @some context other hcontext =>
          have hlinked := hr.linked link hl context other hcontext
          dsimp only
          generalize link context = v at hlinked ⊢
          generalize link other = w at hlinked ⊢
          cases hlinked with
          | none => exact defaulted
          | some hvw => exact .some hvw
    · exact .none

end Checks

/-! ## Records in another order -/

section Entries

variable {fillKey fillElement : Settings → Option Value → Except SchemaError Filled}
  {settings : Settings} {entries others : List (String × Value)} {fs : List (String × Filled)}

theorem fillEntries_perm_ok (hp : entries.Perm others)
    (h : fillEntries fillKey fillElement settings entries = .ok fs) :
    ∃ gs, fillEntries fillKey fillElement settings others = .ok gs ∧ fs.Perm gs := by
  induction hp generalizing fs with
  | nil => exact ⟨fs, h, List.Perm.refl _⟩
  | cons entry _ ih =>
    obtain ⟨f, rest, hk, hf, hr, rfl⟩ := fillEntries_cons_ok_iff.mp h
    obtain ⟨gs, hg, hp⟩ := ih hr
    exact ⟨_, fillEntries_cons_ok_iff.mpr ⟨f, gs, hk, hf, hg, rfl⟩, hp.cons _⟩
  | swap entry other rest =>
    obtain ⟨f, _, hk, hf, hr, rfl⟩ := fillEntries_cons_ok_iff.mp h
    obtain ⟨f', rest', hk', hf', hr', rfl⟩ := fillEntries_cons_ok_iff.mp hr
    -- Neither entry is filled with a view of the other, so they can change places.
    have hinner : fillEntries fillKey fillElement settings (other :: rest) =
        .ok ((other.1, f) :: rest') :=
      fillEntries_cons_ok_iff.mpr ⟨f, rest', hk, hf, hr', rfl⟩
    exact ⟨_, fillEntries_cons_ok_iff.mpr ⟨f', _, hk', hf', hinner, rfl⟩, List.Perm.swap _ _ _⟩
  | trans _ _ ih ih' =>
    obtain ⟨between, h, hp⟩ := ih h
    obtain ⟨gs, h, hp'⟩ := ih' h
    exact ⟨gs, h, hp.trans hp'⟩

/-- Entries are filled one by one: their order is the order of the trees, and counts for nothing
else. -/
theorem fillEntries_perm (hp : entries.Perm others) :
    Agree (fun _ _ => True) List.Perm (fillEntries fillKey fillElement settings entries)
      (fillEntries fillKey fillElement settings others) := by
  refine Agree.of_ok (fun _ h => fillEntries_perm_ok hp h) fun _ h => ?_
  obtain ⟨fs, h, -⟩ := fillEntries_perm_ok hp.symm h
  exact ⟨fs, h⟩

theorem names_fillEntries (h : fillEntries fillKey fillElement settings entries = .ok fs) :
    Entries.names fs = Entries.names entries :=
  (Entries.names_eq_of_forall₂ ((fillEntries_ok h).imp fun _ _ h => h.1)).symm

end Entries

/-! ## Kinds -/

section Kinds

variable {props : Props} {kind : Kind Schema} {extension : Option Extension} {settings : Settings}
  {scope scope' : Option LinkContext} {v w : Value}

theorem fillKind_list_alike {elements : Schema} {transformer : Option Transformer}
    (element : elements.FillsAlike settings.mode) (hx : Impartial settings.mode extension)
    (hs : Option.Rel LinkContext.Alike scope scope') (h : v.Alike w) :
    Agree (fun _ _ => True) Filled.Alike
      (fillKind (.list elements) transformer extension settings scope v)
      (fillKind (.list elements) transformer extension settings scope' w) := by
  rcases h.list_or with ⟨items, others, rfl, rfl, hitems⟩ | ⟨hv, hw⟩
  · refine fillKind_list_agree (fun _ _ => Filled.alike_list)
      (hitems.imp fun v w hvw position => ?_)
    exact element extension _ scope scope' _ _ hx rfl hs (.some hvw)
  · refine Agree.of_not_ok (fun f hf => ?_) fun g hg => ?_
    · obtain ⟨items, _, rfl, -⟩ := fillKind_list_ok hf
      exact hv items rfl
    · obtain ⟨others, _, rfl, -⟩ := fillKind_list_ok hg
      exact hw others rfl

/-- Sets compare their members with the other comparison, which takes equal members to be the
same. -/
theorem fillKind_set_alike {elements : Schema} {transformer : Option Transformer}
    (element : elements.FillsAlike settings.mode)
    (hs : Option.Rel LinkContext.Alike scope scope') (h : v.Alike w) :
    Agree (fun _ _ => True) Filled.Alike
      (fillKind (.set elements) transformer extension settings scope v)
      (fillKind (.set elements) transformer extension settings scope' w) := by
  rcases h.list_or with ⟨members, others, rfl, rfl, hmembers⟩ | ⟨hv, hw⟩
  · refine fillKind_set_agree (fun _ _ => Filled.alike_set)
      (Value.hasDuplicates_eq_of_alike hmembers) trivial (hmembers.imp fun v w hvw => ?_)
    exact element none settings scope scope' _ _ (impartial_none _) rfl hs (.some hvw)
  · refine Agree.of_not_ok (fun f hf => ?_) fun g hg => ?_
    · obtain ⟨members, _, rfl, -⟩ := fillKind_set_ok hf
      exact hv members rfl
    · obtain ⟨others, _, rfl, -⟩ := fillKind_set_ok hg
      exact hw others rfl

/-- The entries are brought into one order first, and then filled side by side. -/
theorem fillKind_record_alike {keys elements : Schema} {transformer : Option Transformer}
    (key : keys.FillsAlike settings.mode) (element : elements.FillsAlike settings.mode)
    (hx : Impartial settings.mode extension) (hs : Option.Rel LinkContext.Alike scope scope')
    (h : v.Alike w) :
    Agree (fun _ _ => True) Filled.Alike
      (fillKind (.record keys elements) transformer extension settings scope v)
      (fillKind (.record keys elements) transformer extension settings scope' w) := by
  rcases h.map_or with ⟨input, others, rfl, rfl⟩ | ⟨hv, hw⟩
  · obtain ⟨_, hmap, hd, aligned, hrel, hperm⟩ := Value.alike_map_iff.mp h
    cases hmap
    have agree : Agree (fun _ _ => True) (Entries.Rel Filled.Alike)
        (fillEntries (fun place key => fillNode keys none place none key)
          (fun place element => fillNode elements extension place scope element) settings input)
        (fillEntries (fun place key => fillNode keys none place none key)
          (fun place element => fillNode elements extension place scope' element) settings
          aligned) := by
      refine fillEntries_agree (fun name => ?_) (hrel.imp fun _ _ h => ⟨h.1, fun name => ?_⟩)
      · have hname : Value.Alike (.string name) (.string name) := .refl trivial
        have hkey := key none (settings.at (settings.path.member name)) none none _ _
          (impartial_none _) rfl .none (.some hname)
        exact hkey.imp fun _ _ _ => trivial
      · exact element extension _ scope scope' _ _ hx rfl hs (.some h.2)
    obtain ⟨e, e', hf, hg, -⟩ | ⟨fs, gs, hf, hg, hm⟩ :=
      (agree.trans_perm (fillEntries_perm hperm)).cases
    · simp only [fillKind, hf, hg]
      exact .error trivial
    · simp only [fillKind, hf, hg]
      have distinct : (Entries.names fs).Nodup := by
        rw [names_fillEntries hf]
        exact hd
      exact .ok (Filled.alike_record hm distinct)
  · refine Agree.of_not_ok (fun f hf => ?_) fun g hg => ?_
    · obtain ⟨input, _, rfl, -⟩ := fillKind_record_ok hf
      exact hv input rfl
    · obtain ⟨others, _, rfl, -⟩ := fillKind_record_ok hg
      exact hw others rfl

/-- Alike maps have undeclared names both or neither, though not the same one first. -/
theorem undeclared?_alike {children : List Child} {input others : List (String × Value)}
    (h : Value.Alike (.map input) (.map others)) :
    Option.Rel (fun _ _ => True) (undeclared? children input) (undeclared? children others) := by
  have declared_iff : undeclared? children input = none ↔ undeclared? children others = none := by
    rw [undeclared?_eq_none_iff, undeclared?_eq_none_iff]
    exact ⟨List.Subset.trans h.symm.names_subset, List.Subset.trans h.names_subset⟩
  cases hv : undeclared? children input with
  | none =>
    rw [declared_iff.mp hv]
    exact .none
  | some name =>
    cases hw : undeclared? children others with
    | none =>
      rw [declared_iff.mpr hw] at hv
      cases hv
    | some other => exact .some trivial

theorem fillKind_attributes_alike {transformer : Option Transformer}
    {attributes : List (String × Schema)} (hk : kind.attributes? = some attributes)
    (hd : Entries.Distinct attributes)
    (each : ∀ schema ∈ kind.children, schema.FillsAlike settings.mode)
    (hx : Impartial settings.mode extension) (hs : Option.Rel LinkContext.Alike scope scope')
    (h : v.Alike w) :
    Agree (fun _ _ => True) Filled.Alike
      (fillKind kind transformer extension settings scope v)
      (fillKind kind transformer extension settings scope' w) := by
  rcases h.map_or with ⟨input, others, rfl, rfl⟩ | ⟨hv, hw⟩
  · have agree : Agree (fun _ _ => True) (fun f g => ∃ slots slots', f = .map slots ∧
          g = .map slots' ∧ List.Forall₂ (Slot.Rel Filled.Alike) slots slots')
        (fillKind kind transformer extension settings scope (.map input))
        (fillKind kind transformer extension settings scope' (.map others)) := by
      rw [fillKind_attributes_eq hk, fillKind_attributes_eq hk]
      refine fillAttributes_agree rfl (fun _ _ h => h.value) (undeclared?_alike h)
        (fun child _ => isNone_eq_of_rel (h.get? child.name))
        (fun child _ _ => h.get? child.name) fun child hc _ siblings siblings' hsiblings => ?_
      obtain ⟨entry, he, rfl⟩ := List.mem_map.mp hc
      exact each entry.2 (Kind.mem_children hk he) extension _ _ _ _ _ hx rfl
        (.some (LinkContext.alike_nested hs hsiblings)) (h.get? entry.1)
    obtain ⟨e, e', hf, hg, -⟩ | ⟨_, _, hf, hg, slots, slots', rfl, rfl, hslots⟩ := agree.cases
    · rw [hf, hg]
      exact .error trivial
    · rw [hf, hg]
      obtain ⟨_, _, _, hmap, -, hslot⟩ := fillKind_attributes_ok hk hf
      cases hmap
      have distinct : (slots.map Slot.name).Nodup := by
        rw [slot_names hslot]
        exact hd.sublist (Kind.parsed_sublist _ _ _)
      exact .ok (Filled.alike_map hslots distinct)
  · refine Agree.of_not_ok (fun f hf => ?_) fun g hg => ?_
    · obtain ⟨input, _, rfl, -⟩ := fillKind_attributes_ok hk hf
      exact hv input rfl
    · obtain ⟨others, _, rfl, -⟩ := fillKind_attributes_ok hk hg
      exact hw others rfl

theorem fillKind_alike (hc : (Schema.mk props kind).Coherent settings.mode)
    (each : ∀ schema ∈ kind.children, schema.FillsAlike settings.mode)
    (hx : Impartial settings.mode extension) (hs : Option.Rel LinkContext.Alike scope scope')
    (h : v.Alike w) :
    Agree (fun _ _ => True) Filled.Alike
      (fillKind kind props.transformer extension settings scope v)
      (fillKind kind props.transformer extension settings scope' w) := by
  have fit : (Schema.mk props kind).ChildrenFit := hc.wellFormed.root
  cases kind with
  | scalar kind =>
    simp only [fillKind, ← scalarMatches_eq_of_alike h]
    cases scalarMatches kind v with
    | true =>
      refine .ok (Filled.alike_scalar h fun transformer ht => ?_)
      exact hc.respects.root.encoded transformer ht v w h
    | false => exact .error trivial
  | list elements => exact fillKind_list_alike (each elements List.mem_cons_self) hx hs h
  | set elements => exact fillKind_set_alike (each elements List.mem_cons_self) hs h
  | record keys elements =>
    have element : elements.FillsAlike settings.mode :=
      each elements (List.mem_cons_of_mem _ List.mem_cons_self)
    exact fillKind_record_alike (each keys List.mem_cons_self) element hx hs h
  | anyOf members =>
    exact fillKind_anyOf_agree trivial fun member hm =>
      each member hm extension settings scope scope' _ _ hx rfl hs (.some h)
  | map attributes => exact fillKind_attributes_alike rfl fit.1 each hx hs h
  | item attributes => exact fillKind_attributes_alike rfl fit.1 each hx hs h

end Kinds

/-! ## Nodes -/

/-- Both nodes are owned by the extension, or both have alike values or none, by induction on the
schema. -/
theorem fillNode_alike {mode : Mode} {schema : Schema} (hc : schema.Coherent mode) :
    schema.FillsAlike mode := by
  induction schema using Schema.induct with
  | node props kind ih =>
    intro extension settings scope scope' input input' hx hmode hs h
    subst hmode
    have each : ∀ schema ∈ kind.children, schema.FillsAlike settings.mode :=
      fun schema hm => ih schema hm (hc.child hm)
    rcases (hx (.mk props kind) settings hc rfl input input' h).cases with
      ⟨parser, parser', hconsult, hconsult', hparser⟩ | ⟨given, given', hconsult, hconsult', hgiven⟩
    · refine fillNode_extended_agree hconsult hconsult' (hparser.first.imp fun _ _ hv => ?_)
      exact Filled.alike_extended hv hparser.next.2
    · rcases rel_cases (resolved_alike hc.respects.root hs hgiven) with
        ⟨hr, hr'⟩ | ⟨v, w, hr, hr', hvw⟩
      · exact fillNode_absent_agree rfl hconsult hconsult' hr hr' trivial Filled.alike_absent
      · exact fillNode_present_agree hconsult hconsult' hr hr'
          (fillKind_alike hc each hx hs hvw) fun _ _ => checkFilled_alike hc

theorem start_alike {schema : Schema} {extension : Option Extension} {settings : Settings}
    (hc : schema.Coherent settings.mode) (hx : Impartial settings.mode extension)
    {input input' : Option Value} (h : Option.Rel Value.Alike input input') :
    (start schema extension settings input).Alike (start schema extension settings input') := by
  obtain ⟨e, e', hf, hg, -⟩ | ⟨f, g, hf, hg, hfilled⟩ :=
    (fillNode_alike hc extension settings none none input input' hx rfl .none h).cases
  · simp only [start, hf, hg]
    exact Parser.alike_new _ (.error trivial) (.error trivial)
  · simp only [start, hf, hg]
    exact Parser.alike_new _ (.ok hfilled.value) (hfilled.store settings.path)

/-! ## Operations -/

namespace Update

inductive Operand.Alike : Operand → Operand → Prop where
  | one {parser other : Parser} (h : parser.Alike other) : Alike (.one parser) (.one other)
  | many {parsers others : List Parser} (h : List.Forall₂ Parser.Alike parsers others) :
    Alike (.many parsers) (.many others)

inductive Action.Alike : Action → Action → Prop where
  | wrap {tag : OpTag} {build : Value → Operation Value} (hb : Carries tag build)
    {operand other : Operand} (h : operand.Alike other) :
    Alike (.wrap build operand) (.wrap build other)
  | remove (required : Bool) : Alike (.remove required) (.remove required)
  | get (source : String) {fallback other : Option Parser}
    (h : Option.Rel Parser.Alike fallback other) : Alike (.get source fallback) (.get source other)

theorem stepAll_alike {parsers others : List Parser}
    (h : List.Forall₂ Parser.Alike parsers others) :
    Agree (fun _ _ => True) (List.Forall₂ Value.Alike) (stepAll parsers) (stepAll others) := by
  induction h with
  | nil => exact .ok .nil
  | cons hfirst _ ih =>
    rw [stepAll_cons, stepAll_cons]
    exact hfirst.first.bind fun _ _ hvw => ih.map fun _ _ hs => Filled.toList_append_alike hvw hs

theorem Operand.Alike.step {operand other : Operand} (h : operand.Alike other) :
    Outcome.Alike operand.step other.step := by
  cases h with
  | one h => exact h.first
  | many h =>
    obtain ⟨e, e', hf, hg, -⟩ | ⟨vs, ws, hf, hg, hs⟩ := (stepAll_alike h).cases
    · simp only [Operand.step, hf, hg]
      exact .error trivial
    · simp only [Operand.step, hf, hg]
      exact .ok (.some (Value.alike_list_iff.mpr ⟨ws, rfl, hs⟩))

theorem Operand.Alike.rest {operand other : Operand} (h : operand.Alike other) :
    operand.rest.Alike other.rest := by
  cases h with
  | one h => exact .one h.next.2
  | many h =>
    refine .many ?_
    rw [List.forall₂_map_left_iff, List.forall₂_map_right_iff]
    exact h.imp fun _ _ h => h.next.2

theorem Action.Alike.step {action other : Action} (h : action.Alike other) (path : ValuePath) :
    Outcome.Alike (action.step path) (other.step path) := by
  cases h with
  | wrap hb h =>
    obtain ⟨e, e', hf, hg, -⟩ | ⟨v, w, hf, hg, hvw⟩ := h.step.cases
    · simp only [Action.step, hf, hg]
      exact .error trivial
    · simp only [Action.step, hf, hg]
      have hheld : Value.Alike (v.getD .null) (w.getD .null) := by
        cases hvw with
        | none => exact .refl trivial
        | some hvw => exact hvw
      exact .ok (.some (Value.alike_op_iff.mpr ⟨_, rfl, hb.rel hheld⟩))
  | remove required =>
    simp only [Action.step]
    cases required with
    | true => exact .error trivial
    | false => exact .ok (.some (.refl trivial))
  | get source h =>
    simp only [Action.step]
    cases source.isEmpty with
    | true => exact .error trivial
    | false =>
      cases h with
      | none => exact .ok (.some (.refl trivial))
      | some h =>
        obtain ⟨e, e', hf, hg, -⟩ | ⟨v, w, hf, hg, hvw⟩ := h.first.cases
        · simp only [Update.step, hf, hg]
          exact .error trivial
        · simp only [Update.step, hf, hg]
          exact .ok (.some (Value.alike_op_iff.mpr ⟨_, rfl, .get source hvw⟩))

theorem Action.Alike.rest {action other : Action} (h : action.Alike other) :
    action.rest.Alike other.rest := by
  cases h with
  | wrap hb h => exact .wrap hb h.rest
  | remove required => exact .remove required
  | get source h =>
    cases h with
    | none => exact .get source .none
    | some h => exact .get source (.some h.next.2)

section Recognition

variable {schema : Schema} {settings : Settings}

theorem startOperand_alike (hc : schema.Coherent settings.mode) (tag : OpTag) {v w : Value}
    (h : v.Alike w) :
    (startOperand schema settings tag v).Alike (startOperand schema settings tag w) := by
  have coherent : schema.Coherent (operandSettings settings tag).mode := hc
  exact start_alike coherent (impartial_none _) (.some h)

theorem setOperand_of_not_list {elements : Schema} {tag : OpTag} {v : Value}
    (h : ∀ vs, v ≠ .list vs) :
    setOperand elements settings tag v = .one (startOperand elements settings tag v) := by
  cases v with
  | list vs => exact absurd rfl (h vs)
  | _ => rfl

theorem setOperand_alike {elements : Schema} (hc : elements.Coherent settings.mode) (tag : OpTag)
    {v w : Value} (h : v.Alike w) :
    (setOperand elements settings tag v).Alike (setOperand elements settings tag w) := by
  rcases h.list_or with ⟨vs, ws, rfl, rfl, hs⟩ | ⟨hv, hw⟩
  · refine .many ?_
    rw [List.forall₂_map_left_iff, List.forall₂_map_right_iff]
    exact hs.imp fun _ _ h => startOperand_alike hc tag h
  · rw [setOperand_of_not_list hv, setOperand_of_not_list hw]
    exact .one (startOperand_alike hc tag h)

/-- Alike operations are both recognised, as alike actions, or both not. -/
theorem action?_alike (hc : schema.Coherent settings.mode) {operation other : Operation Value}
    (h : operation.Rel Value.Alike other) :
    Option.Rel Action.Alike (action? schema settings operation)
      (action? schema settings other) := by
  obtain ⟨props, kind⟩ := schema
  -- What is recognised depends on the tag and the kind, which the two have in common.
  cases h with
  | add h =>
    cases kind with
    | set elements => exact .some (.wrap .add (setOperand_alike (hc.child List.mem_cons_self) _ h))
    | scalar kind =>
      cases kind with
      | number => exact .some (.wrap .add (.one (startOperand_alike hc _ h)))
      | _ => exact .none
    | _ => exact .none
  | delete h =>
    cases kind with
    | set elements =>
      exact .some (.wrap .delete (setOperand_alike (hc.child List.mem_cons_self) _ h))
    | _ => exact .none
  | set h =>
    cases kind with
    | map _ => exact .some (.wrap .set (.one (startOperand_alike hc _ h)))
    | record _ _ => exact .some (.wrap .set (.one (startOperand_alike hc _ h)))
    | list _ => exact .some (.wrap .set (.one (startOperand_alike hc _ h)))
    | _ => exact .none
  | remove => exact .some (.remove _)
  | get source h =>
    cases h with
    | none => exact .some (.get source .none)
    | some h => exact .some (.get source (.some (startOperand_alike hc _ h)))

/-- A recognised operation, and another way of writing it. -/
theorem consult_alike (hc : schema.Coherent settings.mode) {input input' : Option Value}
    (h : Option.Rel Value.Alike input input') {parser : Parser}
    (hx : consult schema settings input = .extended parser) :
    ∃ other, consult schema settings input' = .extended other ∧ parser.Alike other := by
  obtain ⟨operation, action, rfl, ha, rfl⟩ := consult_extended hx
  cases h with
  | some hv =>
    obtain ⟨operation', rfl, hr⟩ := Value.alike_op_iff.mp hv
    have halike := action?_alike hc hr
    rw [ha] at halike
    cases ha' : action? schema settings operation' with
    | none =>
      rw [ha'] at halike
      cases halike
    | some action' =>
      rw [ha'] at halike
      obtain ⟨haction⟩ := halike
      refine ⟨.new settings.transform (action'.step settings.path)
        (action'.rest.step settings.path), by simp only [consult, ha'], ?_⟩
      exact Parser.alike_new _ (haction.step settings.path) (haction.rest.step settings.path)

end Recognition

end Update

/-- The extension of update mode answers alike inputs alike: each of two alike operations is
recognised if the other is. -/
theorem impartial_update (mode : Mode) : Impartial mode (some Update.extension) := by
  intro schema settings hc hmode input input' h
  subst hmode
  have hback : Option.Rel Value.Alike input' input := by
    cases h with
    | none => exact .none
    | some h => exact .some h.symm
  cases hx : Update.consult schema settings input with
  | extended parser =>
    obtain ⟨other, hx', hparser⟩ := Update.consult_alike hc h hx
    simp only [Extension.consult, Update.extension, hx, hx']
    exact .extended hparser
  | unextended given =>
    cases hx' : Update.consult schema settings input' with
    | extended other =>
      obtain ⟨parser, hagain, -⟩ := Update.consult_alike hc hback hx'
      rw [hx] at hagain
      cases hagain
    | unextended given' =>
      obtain ⟨rfl, -⟩ := consult_unextended hx
      obtain ⟨rfl, -⟩ := consult_unextended hx'
      simp only [Extension.consult, Update.extension, hx, hx']
      exact .unextended h

/-! ## Parsing -/

theorem lastOutcome_alike {outcomes others : List Outcome}
    (h : List.Forall₂ Outcome.Alike outcomes others) {latest latest' : Option Value}
    (hl : Option.Rel Value.Alike latest latest') :
    Outcome.Alike (Parser.lastOutcome latest outcomes) (Parser.lastOutcome latest' others) := by
  induction h generalizing latest latest' with
  | nil => exact .ok hl
  | cons hfirst _ ih =>
    cases hfirst with
    | error _ => exact .error trivial
    | ok hv => exact ih hv

/-- Of two equal inputs, both are rejected or neither is, in each step, and then the results are
equal: the order in which the keys of maps are written decides nothing but the order of keys. The
links, validators and transformers of the schema must not tell equal arguments apart. -/
theorem steps_of_alike {schema : Schema} {options : ParseOptions} {input input' : Option Value}
    (hb : schema.Built)
    (hx : options.extension = none ∨ options.extension = some Update.extension)
    (hu : schema.Uniform options.mode)
    (hr : schema.Everywhere (Schema.Respects options.mode))
    (h : Option.Rel Value.Alike input input') :
    List.Forall₂ Outcome.Alike (schema.start options input).outcomes
        (schema.start options input').outcomes ∧
      Outcome.Alike (schema.parse options input) (schema.parse options input') := by
  have impartial : Impartial options.mode options.extension := by
    rcases hx with hx | hx
    · rw [hx]
      exact impartial_none _
    · rw [hx]
      exact impartial_update _
  have parsers : (schema.start options input).Alike (schema.start options input') :=
    start_alike ⟨hb.wellFormed, hu, hr⟩ impartial h
  exact ⟨parsers.outcomes, lastOutcome_alike parsers.outcomes .none⟩

/-- Labels in two orders; a link copies them, and their keys are stored with a prefix. -/
theorem steps_of_alike_reordered_labels :
    let keys := (Schema.scalar .string).transform (.addPrefix "tag" "#")
    let copy := (Schema.scalar .any).linkIn .put (fun context => context.get? "labels")
    let schema := Schema.ofKind (.map [("labels", .ofKind (.record keys (.scalar .string))),
      ("copy", copy)])
    let input := Value.map [("labels", .map [("a", .string "x"), ("b", .string "y")])]
    let input' := Value.map [("labels", .map [("b", .string "y"), ("a", .string "x")])]
    let stored := Value.map [("labels", .map [("tag#a", .string "x"), ("tag#b", .string "y")]),
      ("copy", .map [("a", .string "x"), ("b", .string "y")])]
    let stored' := Value.map [("labels", .map [("tag#b", .string "y"), ("tag#a", .string "x")]),
      ("copy", .map [("b", .string "y"), ("a", .string "x")])]
    let options := ParseOptions.ofMode .put
    schema.Uniform .put ∧ schema.Everywhere (Schema.Respects .put) ∧ input.Alike input' ∧
      schema.parse options (some input) = .ok (some stored) ∧
      schema.parse options (some input') = .ok (some stored') ∧ stored.equal stored' = true := by
  intro keys copy schema input input' stored stored' options
  have built : schema.Built := by
    refine .map (fun entry he => ?_) (rfl : Schema.map? [("labels",
      .ofKind (.record keys (.scalar .string))), ("copy", copy)] = _)
    rcases List.mem_cons.mp he with rfl | he
    · exact .record (.withProps (.scalar .string) fun props =>
        { props with transformer := some (.addPrefix "tag" "#") }) (.scalar .string) rfl
    · cases List.mem_singleton.mp he
      let link : Link := fun context => context.get? "labels"
      exact .withProps (.scalar .any) fun props =>
        { props with links := props.links.set .put link }
  have prefixed : keys.Respects .put := by
    refine ⟨fun _ h => ?_, fun _ h => ?_, fun transformer ht v w hvw => ?_⟩
    · cases h
    · cases h
    · cases ht
      exact Transformer.alike_addPrefix "tag" "#" hvw
  have copies : copy.Respects .put := by
    refine ⟨fun _ h => ?_, fun link hl context other hcontext => ?_, fun _ h => ?_⟩
    · cases h
    · cases hl
      exact hcontext.siblings.get? "labels"
    · cases h
  have nodes : schema.Everywhere fun node =>
      node.props.validators = .empty ∧ node.Respects .put := by
    have plain (kind : ScalarKind) : (Schema.scalar kind).Respects .put :=
      Schema.respects_ofKind _ _
    refine Schema.everywhere_iff.mpr ⟨⟨rfl, Schema.respects_ofKind _ _⟩,
      List.forall_mem_cons.mpr ⟨Schema.everywhere_iff.mpr ⟨⟨rfl, Schema.respects_ofKind _ _⟩, ?_⟩,
        List.forall_mem_singleton.mpr ?_⟩⟩
    · refine List.forall_mem_cons.mpr ⟨?_, List.forall_mem_singleton.mpr ?_⟩
      · exact Schema.everywhere_iff.mpr ⟨⟨rfl, prefixed⟩, List.forall_mem_nil _⟩
      · exact Schema.everywhere_iff.mpr ⟨⟨rfl, plain .string⟩, List.forall_mem_nil _⟩
    · exact Schema.everywhere_iff.mpr ⟨⟨rfl, copies⟩, List.forall_mem_nil _⟩
  have uniform : schema.Uniform .put := by
    intro node hn validator hv
    have hv : node.props.validators.get? .put = some validator := hv
    rw [(nodes node hn).1] at hv
    cases hv
  have respects : schema.Everywhere (Schema.Respects .put) := fun node hn => (nodes node hn).2
  have alike : input.Alike input' := by
    have labels : Value.Alike (.map [("a", .string "x"), ("b", .string "y")])
        (.map [("b", .string "y"), ("a", .string "x")]) := by
      refine Value.alike_map_iff.mpr ⟨_, rfl, by decide, [("a", .string "x"), ("b", .string "y")],
        ?_, List.Perm.swap _ _ _⟩
      exact .cons ⟨rfl, .refl trivial⟩ (.cons ⟨rfl, .refl trivial⟩ .nil)
    refine Value.alike_map_iff.mpr ⟨_, rfl, by decide, _, ?_, List.Perm.refl _⟩
    exact .cons ⟨rfl, labels⟩ .nil
  have parsed : schema.parse options (some input) = .ok (some stored) := rfl
  have parsed' : schema.parse options (some input') = .ok (some stored') := rfl
  have agree : Outcome.Alike (schema.parse options (some input))
      (schema.parse options (some input')) :=
    (steps_of_alike built (.inl rfl) uniform respects (.some alike)).2
  rw [parsed, parsed'] at agree
  cases agree with
  | ok h =>
    obtain ⟨hstored⟩ := h
    exact ⟨uniform, respects, alike, parsed, parsed', hstored.equal⟩

end ItemShape
