import ItemShape.Proofs.Definition.Parts
import ItemShape.Proofs.Json.Resolve
import ItemShape.Proofs.Lint.Findings

/-!
# ItemShape.Proofs.Definition.Located

Errors of definitions lead to what they are about (`definition_error_leads_to_cause`): the pointer of
an error resolves in the document, to the sub-definition that is refused, or to its transformer or
one of its validators. Where a definition stands in a document shows in the pointers of its errors,
and nowhere else.

Both follow from one statement about decoding as a function of the place. `Placed P f` says that `f`
succeeds at every place with the same result, or fails at every place with the same issue, at the
same pointer below that place; `P` says what this pointer and this issue have to do with the
document. Every part of the decoder is placed, and being placed goes through sequences
(`Placed.andThen`) and below members (`Placed.child`).
-/

namespace ItemShape
namespace Definition

/-! ## Issues -/

/-- What an error says, without where. -/
inductive Issue where
  | invalid (message : String)
  | construction (error : ConstructionError)

/-- The error at a pointer as it is shown. -/
def Issue.shownAt (place : String) : Issue → LoadError
  | invalid message => .invalidDefinition place message
  | construction error => .construction place error

def Issue.at (pointer : String) (issue : Issue) : LoadError :=
  issue.shownAt (Pointer.display pointer)

/-- An outcome at every place: a result, or an issue at a pointer below the place. -/
inductive Placed {α : Type} (P : String → Issue → Prop) (f : String → Except LoadError α) : Prop where
  | ok (x : α) (h : ∀ place, f place = .ok x)
  | error (pointer : String) (issue : Issue) (hp : P pointer issue)
    (h : ∀ place, f place = .error (issue.at (place ++ pointer)))

/-- An issue of the place itself. -/
def Own (pointer : String) (_ : Issue) : Prop :=
  pointer = ""

namespace Placed

variable {α β : Type} {P Q : String → Issue → Prop} {f : String → Except LoadError α}

theorem imp (hf : Placed P f) (h : ∀ pointer issue, P pointer issue → Q pointer issue) :
    Placed Q f := by
  cases hf with
  | ok x hx => exact .ok x hx
  | error pointer issue hp he => exact .error pointer issue (h _ _ hp) he

/-- The issue is that of the outcome at the root. -/
theorem atRoot (hf : Placed P f) :
    Placed (fun pointer issue => P pointer issue ∧ f "" = .error (issue.at pointer)) f := by
  cases hf with
  | ok x hx => exact .ok x hx
  | error pointer issue hp he =>
    have root := he ""
    rw [String.empty_append] at root
    exact .error pointer issue ⟨hp, root⟩ he

theorem own {issue : Issue} (h : ∀ place, f place = .error (issue.at place)) : Placed Own f :=
  .error "" issue rfl fun place => by rw [h, String.append_empty]

theorem invalid {message : String}
    (h : ∀ place, f place = .error (Definition.invalid place message)) : Placed Own f := by
  have here : ∀ place, f place = .error ((Issue.invalid message).at place) := h
  exact own here

/-- An outcome that fails wherever another one does, and is placed wherever that one succeeds. -/
theorem andThen (hf : Placed P f) {g : String → Except LoadError β}
    (failed : ∀ place e, f place = .error e → g place = .error e)
    (done : ∀ x, (∀ place, f place = .ok x) → Placed P g) : Placed P g := by
  cases hf with
  | ok x hx => exact done x hx
  | error pointer issue hp he => exact .error pointer issue hp fun place => failed _ _ (he place)

/-- What is placed at a member is placed at the whole. -/
theorem child (hf : Placed P f) (name : String) :
    Placed (fun pointer issue => ∃ rest, pointer = Pointer.child "" name ++ rest ∧ P rest issue)
      fun place => f (Pointer.child place name) := by
  cases hf with
  | ok x hx => exact .ok x fun place => hx _
  | error pointer issue hp he =>
    refine .error _ issue ⟨pointer, rfl, hp⟩ fun place => ?_
    rw [he, ← String.append_assoc, ← Pointer.child_append, String.append_empty]

end Placed

/-! ## Properties -/

section Properties

variable (members : Members) (schema : Schema)

theorem flag_placed (keyword : String) :
    Placed Own fun place => flag place keyword members := by
  unfold flag
  cases Entries.get? keyword members with
  | none => exact .ok false fun _ => rfl
  | some value =>
    cases value with
    | bool b => exact .ok b fun _ => rfl
    | _ => exact .invalid fun _ => rfl

theorem decodeRequired_placed : Placed Own fun place => decodeRequired place members schema := by
  unfold decodeRequired
  cases Entries.get? "required" members with
  | none => exact .ok schema fun _ => rfl
  | some value =>
    cases value with
    | string name =>
      dsimp only
      cases Required.ofName? name with
      | none => exact .invalid fun _ => rfl
      | some required => exact .ok _ fun _ => rfl
    | _ => exact .invalid fun _ => rfl

theorem decodeKey_placed : Placed Own fun place => decodeKey place members schema :=
  (flag_placed members "key").andThen (fun place e h => by simp only [decodeKey, h])
    fun b h => .ok (if b then schema.makeKey else schema) fun place => by simp only [decodeKey, h]

theorem decodeHidden_placed : Placed Own fun place => decodeHidden place members schema :=
  (flag_placed members "hidden").andThen (fun place e h => by simp only [decodeHidden, h])
    fun b h => .ok (if b then schema.hide else schema) fun place => by simp only [decodeHidden, h]

theorem decodeSavedAs_placed : Placed Own fun place => decodeSavedAs place members schema := by
  unfold decodeSavedAs
  cases Entries.get? "savedAs" members with
  | none => exact .ok schema fun _ => rfl
  | some value =>
    cases value with
    | string name =>
      dsimp only
      cases name.isEmpty with
      | true => exact .invalid fun _ => rfl
      | false => exact .ok _ fun _ => rfl
    | _ => exact .invalid fun _ => rfl

theorem decodeEnumerated_placed :
    Placed Own fun place => decodeEnumerated place members schema := by
  unfold decodeEnumerated
  cases Entries.get? "enum" members with
  | none => exact .ok schema fun _ => rfl
  | some value =>
    cases value with
    | array values => exact .ok _ fun _ => rfl
    | _ => exact .invalid fun _ => rfl

theorem decodeDelimiter_placed : Placed Own fun place => decodeDelimiter place members := by
  unfold decodeDelimiter
  cases Entries.get? "delimiter" members with
  | none => exact .ok _ fun _ => rfl
  | some value =>
    cases value with
    | string delimiter => exact .ok delimiter fun _ => rfl
    | _ => exact .invalid fun _ => rfl

theorem decodeTransformer_placed (transform : Json) :
    Placed Own fun place => decodeTransformer place transform := by
  cases transform with
  | object members =>
    refine (decodeDelimiter_placed members).andThen
      (fun place e h => by simp only [decodeTransformer, h]) fun delimiter h => ?_
    simp only [decodeTransformer, h]
    split
    · exact .ok _ fun _ => rfl
    · exact .ok _ fun _ => rfl
    · exact .invalid fun _ => rfl
  | _ => exact .invalid fun _ => rfl

end Properties

theorem composed_placed (outcome : Except ConstructionError Schema) :
    Placed Own fun place => composed place outcome := by
  cases outcome with
  | ok schema => exact .ok schema fun _ => rfl
  | error e =>
    have here : ∀ place, composed place (.error e) = .error ((Issue.construction e).at place) :=
      fun _ => rfl
    exact .own here

/-! ## Causes -/

/-- The second document is the first one, or a definition inside it, at this pointer. -/
inductive Sub : Json → String → Json → Prop where
  | whole (definition : Json) : Sub definition "" definition
  | part {members : Members} {place pointer : String} {value definition : Json}
    (hp : Lint.Part "" members place value) (h : Sub value pointer definition) :
    Sub (.object members) (place ++ pointer) definition

section Compiled

variable [FragmentCompiler]

/-- The value at this pointer is refused with this issue: it is a sub-definition, decoded by itself,
or the transformer or a validator of one. -/
inductive Refused (document : Json) : String → Json → Issue → Prop where
  | definition {pointer : String} {value : Json} {issue : Issue}
    (hs : Sub document pointer value)
    (h : decode value = .error (issue.shownAt "/")) :
    Refused document pointer value issue
  | transformer {pointer : String} {members : Members} {value : Json} {issue : Issue}
    (hs : Sub document pointer (.object members))
    (hv : Entries.get? "transform" members = some value)
    (h : decodeTransformer "" value = .error (issue.shownAt "/")) :
    Refused document (Pointer.child pointer "transform") value issue
  | validator {pointer name message : String} {members fragments : Members} {mode : Mode}
    {value : Json} (hs : Sub document pointer (.object members))
    (hv : Entries.get? "validate" members = some (.object fragments))
    (hm : (name, value) ∈ fragments) (hn : Mode.ofName? name = some mode)
    (h : Validator.ofFragment? value = .error message) :
    Refused document (Pointer.child (Pointer.child pointer "validate") name) value (.invalid message)

/-- What is refused inside a part is refused inside the whole. -/
theorem Refused.part {members : Members} {place pointer : String} {inner value : Json}
    {issue : Issue} (h : Refused inner pointer value issue)
    (hp : Lint.Part "" members place inner) :
    Refused (.object members) (place ++ pointer) value issue := by
  cases h with
  | definition hs h => exact .definition (.part hp hs) h
  | transformer hs hv h =>
    rw [← Pointer.child_append]
    exact .transformer (.part hp hs) hv h
  | validator hs hv hm hn h =>
    rw [← Pointer.child_append, ← Pointer.child_append]
    exact .validator (.part hp hs) hv hm hn h

/-- The validator of a mode that is refused. -/
inductive ValidatorCause (fragments : Members) : String → Issue → Prop where
  | mk {name : String} {mode : Mode} {fragment : Json} {message : String}
    (hm : (name, fragment) ∈ fragments) (hn : Mode.ofName? name = some mode)
    (h : Validator.ofFragment? fragment = .error message) :
    ValidatorCause fragments (Pointer.child "" name) (.invalid message)

/-- The issue is that of something refused at the pointer. -/
def Cause (definition : Json) (pointer : String) (issue : Issue) : Prop :=
  ∃ value, Refused definition pointer value issue

theorem ValidatorCause.cause {members fragments : Members} {pointer : String} {issue : Issue}
    (hv : Entries.get? "validate" members = some (.object fragments))
    (h : ValidatorCause fragments pointer issue) :
    Cause (.object members) (Pointer.child "" "validate" ++ pointer) issue := by
  cases h with
  | @mk name mode fragment message hm hn h =>
    rw [← Pointer.child_append, String.append_empty]
    exact ⟨fragment, .validator (.whole _) hv hm hn h⟩

/-- An issue of the place, or one that has a cause in the definition. -/
def Within (definition : Json) (pointer : String) (issue : Issue) : Prop :=
  pointer = "" ∨ Cause definition pointer issue

theorem Placed.within {α : Type} {f : String → Except LoadError α} (hf : Placed Own f)
    (definition : Json) : Placed (Within definition) f :=
  hf.imp fun _ _ h => .inl h

section Objects

variable {members : Members}

theorem decodeValidators_placed {fragments entries : Members} (h : entries ⊆ fragments)
    (schema : Schema) :
    Placed (ValidatorCause fragments) fun place => decodeValidators place schema entries := by
  induction entries generalizing schema with
  | nil => exact .ok schema fun _ => rfl
  | cons entry rest ih =>
    obtain ⟨name, fragment⟩ := entry
    obtain ⟨hm, hrest⟩ := List.cons_subset.mp h
    simp only [decodeValidators]
    cases hn : Mode.ofName? name with
    | none => exact ih hrest schema
    | some mode =>
      dsimp only
      cases hc : Validator.ofFragment? fragment with
      | ok validator => exact ih hrest _
      | error message =>
        refine .error _ _ (.mk hm hn hc) fun place => ?_
        rw [← Pointer.child_append, String.append_empty]
        rfl

theorem decodeValidate_placed (schema : Schema) :
    Placed (Within (.object members)) fun place => decodeValidate place members schema := by
  unfold decodeValidate
  cases hv : Entries.get? "validate" members with
  | none => exact .ok schema fun _ => rfl
  | some value =>
    cases value with
    | object fragments =>
      refine ((decodeValidators_placed (List.Subset.refl fragments) schema).child "validate").imp ?_
      rintro _ issue ⟨rest, rfl, h⟩
      exact .inr (h.cause hv)
    | _ => exact (Placed.invalid fun _ => rfl).within _

theorem decodeTransform_placed (schema : Schema) :
    Placed (Within (.object members)) fun place => decodeTransform place members schema := by
  cases hv : Entries.get? "transform" members with
  | none => exact .ok schema fun _ => by simp only [decodeTransform, hv]
  | some value =>
    have placed : Placed (Within (.object members))
        fun place => decodeTransformer (Pointer.child place "transform") value := by
      refine ((decodeTransformer_placed value).atRoot.child "transform").imp ?_
      rintro _ issue ⟨_, rfl, rfl, h⟩
      rw [String.append_empty]
      exact .inr ⟨value, .transformer (.whole _) hv h⟩
    exact placed.andThen (fun place e h => by simp only [decodeTransform, hv, h])
      fun transformer h => .ok (schema.transform transformer) fun place => by
        simp only [decodeTransform, hv, h]

theorem decodeProps_placed (schema : Schema) :
    Placed (Within (.object members)) fun place => decodeProps place members schema := by
  have own {f : String → Except LoadError Schema} (hf : Placed Own f) := hf.within (.object members)
  refine (own (decodeRequired_placed members schema)).andThen
    (fun place e h => by simp only [decodeProps, h]) fun required h₁ => ?_
  refine (own (decodeKey_placed members required)).andThen
    (fun place e h => by simp only [decodeProps, h₁, h]) fun key h₂ => ?_
  refine (own (decodeHidden_placed members key)).andThen
    (fun place e h => by simp only [decodeProps, h₁, h₂, h]) fun hidden h₃ => ?_
  refine (own (decodeSavedAs_placed members hidden)).andThen
    (fun place e h => by simp only [decodeProps, h₁, h₂, h₃, h]) fun saved h₄ => ?_
  refine (own (decodeEnumerated_placed members saved)).andThen
    (fun place e h => by simp only [decodeProps, h₁, h₂, h₃, h₄, h]) fun enumerated h₅ => ?_
  refine (decodeValidate_placed (decodeDefault members enumerated)).andThen
    (fun place e h => by simp only [decodeProps, h₁, h₂, h₃, h₄, h₅, h]) fun validated h₆ => ?_
  simp only [decodeProps, h₁, h₂, h₃, h₄, h₅, h₆]
  exact decodeTransform_placed validated

end Objects

/-! ## Definitions inside -/

section Parts

variable {P : String → Issue → Prop} {base : String → String}

theorem decodeNamed_placed {definitions : Members}
    (each : ∀ entry ∈ definitions,
      Placed P fun place => decodeAt (Pointer.child (base place) entry.1) entry.2) :
    Placed P fun place => decodeNamed (base place) definitions := by
  induction definitions with
  | nil => exact .ok [] fun _ => by simp only [decodeNamed]
  | cons entry rest ih =>
    obtain ⟨name, definition⟩ := entry
    rw [List.forall_mem_cons] at each
    refine each.1.andThen (fun place e h => by simp only [decodeNamed, h]) fun schema h₁ => ?_
    refine (ih each.2).andThen (fun place e h => by simp only [decodeNamed, h₁, h])
      fun others h₂ => ?_
    exact .ok ((name, schema) :: others) fun place => by simp only [decodeNamed, h₁, h₂]

theorem decodeListed_placed {definitions : List Json} {start : Nat}
    (each : ∀ i definition, definitions[i]? = some definition →
      Placed P fun place => decodeAt (Pointer.child (base place) (toString (start + i))) definition) :
    Placed P fun place => decodeListed (base place) start definitions := by
  induction definitions generalizing start with
  | nil => exact .ok [] fun _ => by simp only [decodeListed]
  | cons definition rest ih =>
    have first : Placed P fun place =>
        decodeAt (Pointer.child (base place) (toString start)) definition := each 0 definition rfl
    have later : Placed P fun place => decodeListed (base place) (start + 1) rest := by
      refine ih fun i other hi => ?_
      have other := each (i + 1) other hi
      rwa [Nat.add_comm i 1, ← Nat.add_assoc] at other
    refine first.andThen (fun place e h => by simp only [decodeListed, h]) fun schema h₁ => ?_
    refine later.andThen (fun place e h => by simp only [decodeListed, h₁, h]) fun others h₂ => ?_
    exact .ok (schema :: others) fun place => by simp only [decodeListed, h₁, h₂]

variable {members : Members}

/-- The sub-definition under a keyword. -/
theorem Placed.one {value : Json} {keyword : String}
    (hp : Lint.Part "" members (Pointer.child "" keyword) value)
    (h : Placed (Cause value) fun place => decodeAt place value) :
    Placed (Within (.object members)) fun place => decodeAt (Pointer.child place keyword) value := by
  refine (h.child keyword).imp ?_
  rintro _ issue ⟨rest, rfl, hc⟩
  obtain ⟨refused, h⟩ := hc
  exact .inr ⟨refused, h.part hp⟩

/-- A sub-definition two steps below. -/
theorem Placed.two {value : Json} {keyword name : String}
    (hp : Lint.Part "" members (Pointer.child (Pointer.child "" keyword) name) value)
    (h : Placed (Cause value) fun place => decodeAt place value) :
    Placed (Within (.object members))
      fun place => decodeAt (Pointer.child (Pointer.child place keyword) name) value := by
  refine ((h.child name).child keyword).imp ?_
  rintro _ issue ⟨_, rfl, rest, rfl, hc⟩
  rw [← String.append_assoc, ← Pointer.child_append, String.append_empty]
  obtain ⟨refused, h⟩ := hc
  exact .inr ⟨refused, h.part hp⟩

section Kinds

variable (each : ∀ place value, Lint.Part "" members place value →
  Placed (Cause value) fun place => decodeAt place value)

include each

theorem neededPart_placed : Placed (Within (.object members))
    fun place => neededPart place "elements" (decodeParts place members) := by
  simp only [neededPart_decodeParts (.inl rfl)]
  cases hv : Entries.get? "elements" members with
  | none => exact (Placed.invalid fun _ => rfl).within _
  | some value =>
    have hp : Lint.Part "" members (Pointer.child "" "elements") value := .one (.inl rfl) hv
    exact .one hp (each _ value hp)

theorem keysPart_placed : Placed (Within (.object members))
    fun place => keysPart (decodeParts place members) := by
  simp only [keysPart_decodeParts]
  cases hv : Entries.get? "keys" members with
  | none => exact .ok _ fun _ => rfl
  | some value =>
    have hp : Lint.Part "" members (Pointer.child "" "keys") value := .one (.inr rfl) hv
    exact .one hp (each _ value hp)

theorem attributesPart_placed : Placed (Within (.object members))
    fun place => attributesPart place (decodeParts place members) := by
  simp only [attributesPart_decodeParts]
  cases hv : Entries.get? "attributes" members with
  | none => exact (Placed.invalid fun _ => rfl).within _
  | some value =>
    cases value with
    | object definitions =>
      refine decodeNamed_placed fun entry he => ?_
      have hp : Lint.Part "" members (Pointer.child (Pointer.child "" "attributes") entry.1)
        entry.2 := .named hv he
      exact .two hp (each _ entry.2 hp)
    | _ => exact (Placed.invalid fun _ => rfl).within _

theorem membersPart_placed : Placed (Within (.object members))
    fun place => membersPart place (decodeParts place members) := by
  simp only [membersPart_decodeParts]
  cases hv : Entries.get? "members" members with
  | none => exact (Placed.invalid fun _ => rfl).within _
  | some value =>
    cases value with
    | array definitions =>
      refine decodeListed_placed fun i definition hi => ?_
      rw [Nat.zero_add]
      have hp : Lint.Part "" members (Pointer.child (Pointer.child "" "members") (toString i))
        definition := .listed hv hi
      exact .two hp (each _ definition hp)
    | _ => exact (Placed.invalid fun _ => rfl).within _

theorem decodeKind_placed (kind : KindName) : Placed (Within (.object members))
    fun place => decodeKind place (decodeParts place members) kind := by
  cases kind with
  | scalar kind => exact .ok _ fun _ => rfl
  | set | list =>
    refine (neededPart_placed each).andThen (fun place e h => by simp only [decodeKind, h])
      fun elements h => ?_
    simp only [decodeKind, h]
    exact (composed_placed _).within _
  | record =>
    refine (keysPart_placed each).andThen (fun place e h => by simp only [decodeKind, h])
      fun keys h₁ => ?_
    refine (neededPart_placed each).andThen (fun place e h => by simp only [decodeKind, h₁, h])
      fun elements h₂ => ?_
    simp only [decodeKind, h₁, h₂]
    exact (composed_placed _).within _
  | map | item =>
    refine (attributesPart_placed each).andThen (fun place e h => by simp only [decodeKind, h])
      fun attributes h => ?_
    simp only [decodeKind, h]
    exact (composed_placed _).within _
  | anyOf =>
    refine (membersPart_placed each).andThen (fun place e h => by simp only [decodeKind, h])
      fun members h => ?_
    simp only [decodeKind, h]
    exact (composed_placed _).within _

theorem decodeObject_placed : Placed (Within (.object members))
    fun place => decodeObject place members (decodeParts place members) := by
  unfold decodeObject
  cases Entries.get? "type" members with
  | none => exact (Placed.invalid fun _ => rfl).within _
  | some value =>
    cases value with
    | string name =>
      dsimp only
      cases KindName.ofText? name with
      | none => exact (Placed.invalid fun _ => rfl).within _
      | some kind =>
        refine (decodeKind_placed each kind).andThen (fun place e h => by simp only [h])
          fun schema h => ?_
        simp only [h]
        exact decodeProps_placed schema
    | _ => exact (Placed.invalid fun _ => rfl).within _

end Kinds

end Parts

/-- By induction on the document: decoding succeeds at every place, or fails at every place with an
issue that has a cause in the definition. -/
theorem decodeAt_placed (definition : Json) :
    Placed (Cause definition) fun place => decodeAt place definition := by
  induction definition using Json.induct_below with
  | step definition ih =>
    have outcome : Placed (Within definition) fun place => decodeAt place definition := by
      cases definition with
      | object members =>
        simp only [decodeAt]
        exact decodeObject_placed fun place value hp => ih value hp.below
      | _ =>
        simp only [decodeAt]
        exact (Placed.invalid fun _ => rfl).within _
    refine outcome.atRoot.imp fun pointer issue => ?_
    rintro ⟨rfl | hc, root⟩
    · exact ⟨definition, .definition (.whole _) root⟩
    · exact hc

end Compiled

/-! ## Pointers of sub-definitions -/

theorem resolve?_part {members : Members} {place : String} {value : Json}
    (hd : (Json.object members).DistinctNames) (hp : Lint.Part "" members place value) :
    (Json.object members).resolve? place = some value ∧ value.DistinctNames := by
  cases hp with
  | one hk hv =>
    refine ⟨?_, hd.get? hv⟩
    rw [Json.resolve?_child, Json.resolve?_empty]
    exact hv
  | @named definitions name value hv hm =>
    have distinct := hd.get? hv
    refine ⟨?_, distinct.child (List.mem_map_of_mem hm)⟩
    rw [Json.resolve?_child, Json.resolve?_child, Json.resolve?_empty, Option.bind_some, Json.step?,
      hv]
    exact Entries.get?_of_mem distinct.names hm
  | @listed definitions i value hv hi =>
    refine ⟨?_, (hd.get? hv).child (List.mem_of_getElem? hi)⟩
    rw [Json.resolve?_child, Json.resolve?_child, Json.resolve?_empty, Option.bind_some, Json.step?,
      hv, Option.bind_some, Json.step?, Pointer.position?_toString]
    exact hi

/-- The pointer of a sub-definition leads to it. -/
theorem Sub.resolve {document definition : Json} {pointer : String} (hd : document.DistinctNames)
    (h : Sub document pointer definition) :
    document.resolve? pointer = some definition ∧ definition.DistinctNames := by
  induction h with
  | whole definition => exact ⟨definition.resolve?_empty, hd⟩
  | part hp _ ih =>
    obtain ⟨hv, hd'⟩ := resolve?_part hd hp
    obtain ⟨hr, distinct⟩ := ih hd'
    exact ⟨Json.resolve?_append hv hr, distinct⟩

/-- The pointer of what is refused leads to it. -/
theorem Refused.resolve [FragmentCompiler] {document value : Json} {pointer : String} {issue : Issue}
    (hd : document.DistinctNames) (h : Refused document pointer value issue) :
    document.resolve? pointer = some value := by
  cases h with
  | definition hs h => exact (hs.resolve hd).1
  | transformer hs hv h =>
    rw [Json.resolve?_child, (hs.resolve hd).1]
    exact hv
  | validator hs hv hm hn h =>
    obtain ⟨hr, distinct⟩ := hs.resolve hd
    rw [Json.resolve?_child, Json.resolve?_child, hr, Option.bind_some, Json.step?, hv]
    exact Entries.get?_of_mem (distinct.get? hv).names hm

/-! ## Errors -/

/-! A pointer that is shown as a slash is that of the whole document. -/

theorem ne_slash {pointer : String} (h : 2 ≤ pointer.length) : pointer ≠ "/" := by
  rintro rfl
  exact absurd h (by decide)

theorem two_le_length_part {members : Members} {place : String} {value : Json}
    (hp : Lint.Part "" members place value) : 2 ≤ place.length := by
  cases hp with
  | one hk =>
    rcases hk with rfl | rfl
    · decide
    · decide
  | named | listed =>
    rw [Pointer.length_child]
    exact Nat.le_add_right_of_le (Nat.le_add_right_of_le (by decide))

theorem Sub.ne_slash {document definition : Json} {pointer : String}
    (h : Sub document pointer definition) : pointer ≠ "/" := by
  cases h with
  | whole => decide
  | part hp _ =>
    refine Definition.ne_slash ?_
    rw [String.length_append]
    exact Nat.le_add_right_of_le (two_le_length_part hp)

theorem Refused.ne_slash [FragmentCompiler] {document value : Json} {pointer : String} {issue : Issue}
    (h : Refused document pointer value issue) : pointer ≠ "/" := by
  cases h with
  | definition hs => exact hs.ne_slash
  | transformer =>
    refine Definition.ne_slash ?_
    rw [Pointer.length_child, show (Pointer.escape "transform").length = 9 from rfl]
    omega
  | validator =>
    refine Definition.ne_slash ?_
    rw [Pointer.length_child, Pointer.length_child]
    omega

/-- Where an error of a definition is shown when the definition stands at a pointer. -/
def underPlace (pointer place : String) : String :=
  if place = "/" then Pointer.display pointer else pointer ++ place

/-- An error of a definition as it is when the definition stands at a pointer. -/
def under (pointer : String) : LoadError → LoadError
  | .invalidDefinition place message => .invalidDefinition (underPlace pointer place) message
  | .construction place e => .construction (underPlace pointer place) e
  | e => e

theorem underPlace_display {base pointer : String} (hp : pointer ≠ "/") :
    underPlace base (Pointer.display pointer) = Pointer.display (base ++ pointer) := by
  unfold underPlace Pointer.display
  by_cases he : pointer = ""
  · subst he
    rw [String.append_empty]
    rfl
  · have shown : pointer.isEmpty = false := by simpa using he
    have whole : (base ++ pointer).isEmpty = false := by simp [he]
    rw [shown, whole, if_neg Bool.false_ne_true, if_neg hp, if_neg Bool.false_ne_true]

theorem under_at {base pointer : String} {issue : Issue} (hp : pointer ≠ "/") :
    under base (issue.at pointer) = issue.at (base ++ pointer) := by
  cases issue with
  | invalid message | construction error =>
    rw [Issue.at, Issue.at, Issue.shownAt, Issue.shownAt, under, underPlace_display hp]

/-- Decoding a definition at a pointer is decoding it alone and prefixing the pointer. -/
theorem decodeAt_eq_decode [FragmentCompiler] (pointer : String) (definition : Json) :
    decodeAt pointer definition = (decode definition).mapError (under pointer) := by
  cases decodeAt_placed definition with
  | ok schema h =>
    rw [decode, h, h]
    rfl
  | error rest issue hc h =>
    obtain ⟨value, refused⟩ := hc
    rw [decode, h, h, String.empty_append, ← under_at refused.ne_slash]
    rfl

/-- The error of a definition leads to its cause: its pointer, as it is shown, resolves to a value
that is refused with this very issue. And what a sub-definition gives where it stands is what it
gives alone, its error prefixed with the pointer. Both hold whatever compiles the fragments. -/
theorem definition_error_leads_to_cause [FragmentCompiler] {document : Json}
    (hd : document.DistinctNames) :
    (∀ e, decode document = .error e →
      ∃ pointer value issue, e = issue.shownAt (Pointer.display pointer) ∧
        document.displayed? (Pointer.display pointer) = some value ∧
        Refused document pointer value issue) ∧
    ∀ pointer definition, Sub document pointer definition →
      document.resolve? pointer = some definition ∧
        decodeAt pointer definition = (decode definition).mapError (under pointer) := by
  constructor
  · intro e he
    cases decodeAt_placed document with
    | ok schema h =>
      rw [decode, h] at he
      cases he
    | error pointer issue hc h =>
      obtain ⟨value, refused⟩ := hc
      rw [decode, h, String.empty_append] at he
      cases he
      exact ⟨pointer, value, issue, rfl,
        Json.displayed?_display refused.ne_slash (refused.resolve hd), refused⟩
  · intro pointer definition hs
    exact ⟨(hs.resolve hd).1, decodeAt_eq_decode pointer definition⟩

/-- A fragment of the second member of a union that is an attribute with a slash and a tilde in its
name. -/
theorem definition_error_leads_to_cause_fragment_of_member :
    let message := "3 is not valid under any of the schemas listed in the 'anyOf' keyword"
    let _ : FragmentCompiler := ⟨fun _ => .error message⟩
    let fragment := Json.object [("type", .number (.int 3 (by decide)))]
    let member := Json.object [("type", .string "string"), ("validate", .object [("put", fragment)])]
    let union := Json.object [("type", .string "anyOf"),
      ("members", .array [.object [("type", .string "number")], member])]
    let document := Json.object [("type", .string "map"),
      ("attributes", .object [("a/b~c", union)])]
    let place := "/attributes/a~1b~0c/members/1/validate/put"
    document.DistinctNames ∧
      decode document = .error (.invalidDefinition place message) ∧
      document.displayed? place = some fragment ∧
      (∃ pointer, Pointer.display pointer = place ∧
        Refused document pointer fragment (.invalid message)) ∧
      Sub document "/attributes/a~1b~0c/members/1" member ∧
      decodeAt "/attributes/a~1b~0c/members/1" member =
        (decode member).mapError (under "/attributes/a~1b~0c/members/1") := by
  intro message _ fragment member union document place
  have distinct : document.DistinctNames := by
    simp [document, union, member, fragment, Json.DistinctNames, Json.MembersDistinct,
      Json.ItemsDistinct, Entries.Distinct, Entries.names]
  have failed : decode document = .error (.invalidDefinition place message) := rfl
  have inside : Sub document (Pointer.child (Pointer.child "" "attributes") "a/b~c" ++
      (Pointer.child (Pointer.child "" "members") (toString 1) ++ "")) member :=
    .part (.named rfl (List.mem_singleton_self _)) (.part (.listed rfl rfl) (.whole member))
  obtain ⟨leads, alone⟩ := definition_error_leads_to_cause distinct
  obtain ⟨pointer, value, issue, he, hr, refused⟩ := leads _ failed
  have shown : document.displayed? "/attributes/a~1b~0c/members/1/validate/put" = some fragment := rfl
  cases issue with
  | construction e => cases he
  | invalid text =>
    simp only [Issue.shownAt, LoadError.invalidDefinition.injEq] at he
    obtain ⟨hplace, rfl⟩ := he
    rw [← hplace, shown] at hr
    cases hr
    exact ⟨distinct, failed, shown, ⟨pointer, hplace.symm, refused⟩, inside, (alone _ _ inside).2⟩

end Definition
end ItemShape
