import ItemShape.Proofs.Format.Restore
import ItemShape.Proofs.Parse.Agree
import ItemShape.Proofs.Parse.Evaluate
import ItemShape.Proofs.Parse.Store
import ItemShape.Proofs.Parse.Update
import Mathlib.Data.List.Find

/-!
# ItemShape.Proofs.Parse.AddedAttribute

A map or item may declare one more attribute without anybody noticing who does not use it. If the
attribute is optional and neither a default nor a link stands in for it, an input that does not
mention it takes the same steps as before, and what was stored before is formatted as before
(`steps_of_added_attribute`).

`Padded` relates the two runs pass by pass: the list of the second run is the list of the first one
with something of no effect in between. Only positions differ, so that whatever a pass does with the
other elements it does in both runs.

* `Child.Inert`: an attribute that stays absent and is never put off.
* `fillDirect_padded`, `fillDeferred_padded`: the passes over the attributes.
* `Filled.SameSteps`: trees that yield the same in both steps.
-/

namespace ItemShape

/-- The second list is the first one with further elements, all of which satisfy the condition. -/
inductive Padded {α : Type} (P : α → Prop) : List α → List α → Prop where
  | nil : Padded P [] []
  | keep (a : α) {as bs : List α} (h : Padded P as bs) : Padded P (a :: as) (a :: bs)
  | add {b : α} {as bs : List α} (hb : P b) (h : Padded P as bs) : Padded P as (b :: bs)

namespace Padded

variable {α β : Type} {P : α → Prop}

theorem refl : ∀ as : List α, Padded P as as
  | [] => .nil
  | a :: as => .keep a (refl as)

theorem insert {b : α} (hb : P b) : ∀ earlier later : List α,
    Padded P (earlier ++ later) (earlier ++ b :: later)
  | [], later => .add hb (refl later)
  | a :: earlier, later => .keep a (insert hb earlier later)

theorem any_eq {as bs : List α} (h : Padded P as bs) {p : α → Bool} (hp : ∀ a, P a → p a = false) :
    bs.any p = as.any p := by
  induction h with
  | nil => rfl
  | keep a _ ih => rw [List.any_cons, List.any_cons, ih]
  | add hb _ ih => rw [List.any_cons, hp _ hb, ih, Bool.false_or]

/-! Runs over padded lists, extended by what the next element adds to them. -/

variable {a b : Except SchemaError (List α)}

theorem keep_map (x : α) (h : Agree Eq (Padded P) a b) :
    Agree Eq (Padded P) (a.map fun others => x :: others) (b.map fun others => x :: others) := by
  cases h with
  | error h => exact .error h
  | ok h => exact .ok (.keep x h)

theorem add_map {x : α} (hx : P x) (h : Agree Eq (Padded P) a b) :
    Agree Eq (Padded P) a (b.map fun others => x :: others) := by
  cases h with
  | error h => exact .error h
  | ok h => exact .ok (.add hx h)

end Padded

/-! ## Trees -/

namespace Filled

/-- The trees yield the same in both steps, wherever they stand. -/
structure SameSteps (filled other : Filled) : Prop where
  value : other.value? = filled.value?
  store : ∀ path, other.store path = filled.store path

variable {slots others : List (Slot Filled)}

theorem slotValues_padded (h : Padded (fun slot => slot.content = .absent) slots others) :
    slotValues others = slotValues slots := by
  induction h with
  | nil => rfl
  | keep slot _ ih => rw [slotValues, slotValues, ih]
  | @add slot _ _ hb _ ih =>
    obtain ⟨name, stored, content⟩ := slot
    cases hb
    exact ih

theorem storeSlots_padded (h : Padded (fun slot => slot.content = .absent) slots others)
    (path : ValuePath) (taken : List String) :
    storeSlots path taken others = storeSlots path taken slots := by
  induction h generalizing taken with
  | nil => rfl
  | keep slot _ ih => simp only [storeSlots, ih]
  | @add slot _ _ hb _ ih =>
    obtain ⟨name, stored, content⟩ := slot
    cases hb
    exact ih taken

/-- Slots without a value are no part of what a map is filled with or stored as. -/
theorem sameSteps_map (h : Padded (fun slot => slot.content = .absent) slots others) :
    (Filled.map slots).SameSteps (.map others) where
  value := by rw [value?, value?, slotValues_padded h]
  store path := by rw [store_map, store_map, storeSlots_padded h]

end Filled

/-! ## The two passes -/

section Passes

variable {keyOnly : Bool} {settings : Settings} {scope : Option LinkContext}
  {input : List (String × Value)}

/-- The attribute stays absent in every context, and is not put off. -/
structure Child.Inert (settings : Settings) (input : List (String × Value)) (child : Child) :
    Prop where
  unmentioned : child.name ∉ Entries.names input
  unlinked : child.isLinked = false
  fill : ∀ context, child.fill (settings.at (settings.path.member child.name)) context none =
    .ok .absent

/-- What the first pass leaves of such an attribute. -/
def Attempt.Void (entry : Child × Attempt) : Prop :=
  entry.2 = .skipped ∨ entry.2 = .done (.ok .absent)

theorem fillDirect_inert (keyOnly : Bool) (scope : Option LinkContext) {child : Child}
    (h : child.Inert settings input) (rest : List Child) (seen : List (String × Value)) :
    ∃ attempt, Attempt.Void (child, attempt) ∧
      fillDirect keyOnly settings scope input (child :: rest) seen =
        let others := fillDirect keyOnly settings scope input rest seen
        ((child, attempt) :: others.1, others.2) := by
  have absent : Entries.get? child.name input = none := Entries.get?_eq_none_iff.mpr h.unmentioned
  rw [fillDirect]
  cases keyOnly && !child.isKey with
  | true => exact ⟨.skipped, .inl rfl, by simp [absent, recordSibling]⟩
  | false =>
    refine ⟨.done (.ok .absent), .inr rfl, ?_⟩
    simp [absent, h.unlinked, h.fill, outcomeValue?, recordSibling, Filled.value?]

theorem fillDirect_padded (keyOnly : Bool) (scope : Option LinkContext)
    {children others : List Child} (h : Padded (Child.Inert settings input) children others)
    (seen : List (String × Value)) :
    (fillDirect keyOnly settings scope input others seen).2 =
        (fillDirect keyOnly settings scope input children seen).2 ∧
      Padded Attempt.Void (fillDirect keyOnly settings scope input children seen).1
        (fillDirect keyOnly settings scope input others seen).1 := by
  induction h generalizing seen with
  | nil => exact ⟨rfl, .nil⟩
  | @keep child rest _ _ ih =>
    obtain ⟨attempt, next, step⟩ : ∃ attempt next, ∀ rest,
        fillDirect keyOnly settings scope input (child :: rest) seen =
          let others := fillDirect keyOnly settings scope input rest next
          ((child, attempt) :: others.1, others.2) := by
      simp only [fillDirect]
      cases keyOnly && !child.isKey with
      | true => exact ⟨_, _, fun _ => rfl⟩
      | false =>
        cases (Entries.get? child.name input).isNone && settings.fill && child.isLinked with
        | true => exact ⟨_, _, fun _ => rfl⟩
        | false => exact ⟨_, _, fun _ => rfl⟩
    rw [step, step]
    exact ⟨(ih next).1, .keep _ (ih next).2⟩
  | @add child _ rest hb _ ih =>
    obtain ⟨attempt, void, step⟩ := fillDirect_inert keyOnly scope hb rest seen
    rw [step]
    exact ⟨(ih seen).1, .add void (ih seen).2⟩

theorem fillDeferred_padded {attempts others : List (Child × Attempt)}
    (h : Padded Attempt.Void attempts others) (siblings : List (String × Value)) :
    Agree Eq (Padded fun slot => slot.content = .absent)
      (fillDeferred settings scope attempts siblings)
      (fillDeferred settings scope others siblings) := by
  induction h generalizing siblings with
  | nil => exact .ok .nil
  | keep entry _ ih =>
    obtain ⟨child, attempt⟩ := entry
    cases attempt with
    | skipped => exact ih siblings
    | done outcome =>
      rw [fillDeferred_done, fillDeferred_done]
      cases outcome with
      | error e => exact .error rfl
      | ok filled => exact Padded.keep_map _ (ih siblings)
    | deferred =>
      rw [fillDeferred_putOff, fillDeferred_putOff]
      cases child.fill (settings.at (settings.path.member child.name))
        (some (LinkContext.nested scope siblings)) none with
      | error e => exact .error rfl
      | ok filled => exact Padded.keep_map _ (ih _)
  | @add entry _ _ void _ ih =>
    obtain ⟨child, attempt⟩ := entry
    rcases void with rfl | rfl
    · exact ih siblings
    · rw [fillDeferred_done]
      exact Padded.add_map rfl (ih siblings)

/-- Inert attributes make no difference to a map that declares them. -/
theorem fillAttributes_padded {children others : List Child}
    (h : Padded (Child.Inert settings input) children others) :
    Agree Eq Filled.SameSteps (fillAttributes children keyOnly settings scope input)
      (fillAttributes others keyOnly settings scope input) := by
  have undeclared : undeclared? others input = undeclared? children input := by
    refine List.find?_congr fun name hn => congrArg not (h.any_eq fun child inert => ?_)
    exact beq_eq_false_iff_ne.mpr fun he => inert.unmentioned (he ▸ hn)
  obtain ⟨seen, padded⟩ := fillDirect_padded keyOnly scope h []
  simp only [fillAttributes, undeclared, seen]
  cases undeclared? children input with
  | some name => exact .error rfl
  | none =>
    obtain ⟨e, _, ha, hb, rfl⟩ | ⟨slots, slots', ha, hb, hp⟩ := (fillDeferred_padded padded _).cases
    · rw [ha, hb]
      exact .error rfl
    · rw [ha, hb]
      exact .ok (Filled.sameSteps_map hp)

end Passes

/-! ## Parsing -/

section Parsing

variable {extension : Option Extension} {settings : Settings} {scope : Option LinkContext}
  {input : List (String × Value)}

/-- An attribute that a parse of this mode may leave out, and that nothing stands in for then. -/
structure Schema.LeavesAbsent (schema : Schema) (mode : Mode) : Prop where
  optional : schema.isRequired mode = false
  undefaulted : schema.default? mode = none
  unlinked : schema.link? mode = none

theorem fillNode_leaves_absent {schema : Schema} (h : schema.LeavesAbsent settings.mode)
    (hx : extension = none ∨ extension = some Update.extension) :
    fillNode schema extension settings scope none = .ok .absent := by
  obtain ⟨props, kind⟩ := schema
  have undefaulted : props.defaults.get? settings.mode = none := h.undefaulted
  have unlinked : props.links.get? settings.mode = none := h.unlinked
  have absent : resolved props settings scope none = none := by
    simp [resolved, resolveMissing, undefaulted, unlinked]
  exact (fillNode_absent_ok_iff ((conservative_of_extension hx).absent _ _) absent).mpr
    ⟨h.optional, rfl⟩

theorem start_eq_of_sameSteps {schema other : Schema} {value : Option Value}
    (h : Agree Eq Filled.SameSteps (fillNode schema extension settings none value)
      (fillNode other extension settings none value)) :
    start other extension settings value = start schema extension settings value := by
  unfold start
  obtain ⟨e, _, ha, hb, rfl⟩ | ⟨filled, filled', ha, hb, same⟩ := h.cases
  · rw [ha, hb]
  · rw [ha, hb]
    simp only [same.value, same.store]

theorem fillNode_sameSteps {props : Props} {kind kind' : Kind Schema} {given value : Value}
    (hname : kind'.name = kind.name)
    (hc : Extension.consult extension (.mk props kind) settings (some given) =
      .unextended (some value))
    (hc' : Extension.consult extension (.mk props kind') settings (some given) =
      .unextended (some value))
    (h : Agree Eq Filled.SameSteps (fillKind kind props.transformer extension settings scope value)
      (fillKind kind' props.transformer extension settings scope value)) :
    Agree Eq Filled.SameSteps (fillNode (.mk props kind) extension settings scope (some given))
      (fillNode (.mk props kind') extension settings scope (some given)) := by
  rw [fillNode_unextended hc, fillNode_unextended hc']
  simp only [resolved]
  obtain ⟨e, _, ha, hb, rfl⟩ | ⟨filled, filled', ha, hb, same⟩ := h.cases
  · rw [ha, hb]
    exact .error rfl
  · rw [ha, hb]
    have check : checkFilled props kind'.name settings filled' =
        checkFilled props kind.name settings filled := by
      rw [checkFilled, checkFilled, same.value, hname]
    simp only [check]
    cases checkFilled props kind.name settings filled with
    | error e => exact .error rfl
    | ok _ => exact .ok same

end Parsing

/-! ## Formatting -/

/-- An attribute that is not stored is not formatted. -/
theorem formatAttributes_insert {earlier later : List (String × Schema)} {name : String}
    {added : Schema} {path : ValuePath} {stored : List (String × Value)}
    (h : added.storedName name ∉ Entries.names stored) :
    formatAttributes (earlier ++ (name, added) :: later) path stored =
      formatAttributes (earlier ++ later) path stored := by
  induction earlier with
  | nil =>
    rw [List.nil_append, List.nil_append, formatAttributes, Entries.get?_eq_none_iff.mpr h]
    cases added.isHidden <;> rfl
  | cons entry rest ih =>
    rw [List.cons_append, List.cons_append, formatAttributes, formatAttributes, ih]

theorem names_of_storesTo {props : Props} {kind : Kind Schema}
    {attributes : List (String × Schema)} {options : ParseOptions} {input : List (String × Value)}
    {f : Option Value} {t : Value}
    (hx : options.extension = none ∨ options.extension = some Update.extension)
    (hk : kind.attributes? = some attributes)
    (h : (Schema.mk props kind).StoresTo options (some (.map input)) f (some t)) :
    ∃ stored, t = .map stored ∧
      Entries.names stored ⊆ attributes.map fun entry => entry.2.storedName entry.1 := by
  obtain ⟨filled, hf, -, ht⟩ := Schema.exists_filled_of_storesTo h
  obtain ⟨hkind, -⟩ := (fillNode_present_ok_iff (consult_map hx _ _ _) rfl).mp hf
  obtain ⟨_, slots, -, rfl, -, hslots⟩ := fillKind_attributes_ok hk hkind
  rw [Filled.store_map, Filled.map_ok_iff] at ht
  obtain ⟨stored, hs, ht⟩ := ht
  cases ht
  refine ⟨stored, rfl, fun n hn => ?_⟩
  have hm : n ∈ slots.map Slot.stored := Filled.names_storeSlots hs hn
  rw [slot_storedNames hslots] at hm
  exact ((Kind.parsed_sublist kind options.mode attributes).map _).subset hm

/-! ## One more attribute -/

section Added

variable (props : Props) {kind kind' : Kind Schema} {earlier later : List (String × Schema)}
  {name : String} {added : Schema}

theorem fillKind_added (hk : kind.attributes? = some (earlier ++ later))
    (hk' : kind'.attributes? = some (earlier ++ (name, added) :: later))
    (hname : kind'.name = kind.name) {transformer : Option Transformer}
    {extension : Option Extension} {settings : Settings} {scope : Option LinkContext}
    {input : List (String × Value)}
    (hx : extension = none ∨ extension = some Update.extension)
    (ha : added.LeavesAbsent settings.mode) (hinput : name ∉ Entries.names input) :
    Agree Eq Filled.SameSteps (fillKind kind transformer extension settings scope (.map input))
      (fillKind kind' transformer extension settings scope (.map input)) := by
  let child := childOf extension settings.mode (name, added)
  have inert : child.Inert settings input := by
    refine ⟨hinput, ?_, fun context => fillNode_leaves_absent ha hx⟩
    exact Option.isSome_eq_false_iff.mpr (Option.isNone_iff_eq_none.mpr ha.unlinked)
  have keyOnly : kind'.keyOnly settings.mode = kind.keyOnly settings.mode := by
    rw [Kind.keyOnly, Kind.keyOnly, hname]
  rw [fillKind_attributes_eq hk, fillKind_attributes_eq hk', keyOnly]
  refine fillAttributes_padded ?_
  rw [List.map_append, List.map_append, List.map_cons]
  exact Padded.insert inert _ _

/-- A map or item may declare one more attribute that a parse may leave out. An input that does not
mention it takes the same steps as before. If no other attribute is stored under its name, what is
stored then is formatted as before. -/
theorem steps_of_added_attribute {options : ParseOptions} {input : List (String × Value)}
    (hk : kind.attributes? = some (earlier ++ later))
    (hk' : kind'.attributes? = some (earlier ++ (name, added) :: later))
    (hname : kind'.name = kind.name)
    (hx : options.extension = none ∨ options.extension = some Update.extension)
    (ha : added.LeavesAbsent options.mode) (hinput : name ∉ Entries.names input) :
    ((Schema.mk props kind').start options (some (.map input))).trace =
        ((Schema.mk props kind).start options (some (.map input))).trace ∧
      ((∀ entry ∈ earlier ++ later, entry.2.storedName entry.1 ≠ added.storedName name) →
        ∀ f t, (Schema.mk props kind).StoresTo options (some (.map input)) f (some t) →
          (Schema.mk props kind').format t = (Schema.mk props kind).format t) := by
  have same : Agree Eq Filled.SameSteps
      (fillNode (.mk props kind) options.extension options.toSettings none (some (.map input)))
      (fillNode (.mk props kind') options.extension options.toSettings none
        (some (.map input))) :=
    fillNode_sameSteps hname (consult_map hx _ _ _) (consult_map hx _ _ _)
      (fillKind_added hk hk' hname hx ha hinput)
  refine ⟨congrArg Parser.trace (start_eq_of_sameSteps same), fun apart f t h => ?_⟩
  obtain ⟨stored, rfl, hnames⟩ := names_of_storesTo hx hk h
  have fresh : added.storedName name ∉ Entries.names stored := by
    intro hn
    obtain ⟨entry, he, hstored⟩ := List.mem_map.mp (hnames hn)
    exact apart entry he hstored
  rw [Schema.format, Schema.format, formatNode, formatNode, formatKind_attributes_eq hk,
    formatKind_attributes_eq hk', formatAttributes_insert fresh]

end Added

/-- An item whose last attribute links to the first one, and an attribute declared in between. -/
theorem steps_of_added_attribute_linked_item :
    let label := (Schema.scalar .string).linkIn .put fun context => context.lookup? "id"
    let id := ((Schema.scalar .string).makeKey).savedAs "pk"
    let note := ((Schema.scalar .string).makeOptional).savedAs "n"
    let old := Schema.ofKind (.item [("id", id), ("label", label)])
    let new := Schema.ofKind (.item [("id", id), ("note", note), ("label", label)])
    let options := ParseOptions.ofMode .put
    let input := some (Value.map [("id", .string "a")])
    let filled := Value.map [("id", .string "a"), ("label", .string "a")]
    let stored := Value.map [("pk", .string "a"), ("label", .string "a")]
    (new.start options input).trace = [(.ok (some filled), false), (.ok (some stored), true)] ∧
      (new.start options input).trace = (old.start options input).trace ∧
        new.format stored = old.format stored := by
  intro label id note old new options input filled stored
  have leaves : note.LeavesAbsent options.mode := ⟨rfl, rfl, rfl⟩
  have unmentioned : "note" ∉ Entries.names [("id", Value.string "a")] := by decide
  have declared : old.kind.attributes? = some ([("id", id)] ++ [("label", label)]) := rfl
  have inserted : new.kind.attributes? =
      some ([("id", id)] ++ ("note", note) :: [("label", label)]) := rfl
  have plain : options.extension = none ∨ options.extension = some Update.extension := .inl rfl
  obtain ⟨steps, formatted⟩ :=
    steps_of_added_attribute old.props declared inserted rfl plain leaves unmentioned
  refine ⟨rfl, steps, formatted (fun entry he => ?_) (some filled) stored ⟨_, _, rfl, rfl⟩⟩
  rcases List.mem_cons.mp he with rfl | he
  · decide
  · cases List.mem_singleton.mp he
    decide

end ItemShape
