import ItemShape.Proofs.Lists
import ItemShape.Proofs.Parse.Fill

/-!
# ItemShape.Proofs.Parse.Agree

Two parses side by side. `Agree E R` says that two runs end alike: both fail, with errors related by
`E`, or both succeed, with results related by `R`.

Agreeing goes through sequences of runs (`Agree.bind`, `Agree.map`), and the lemmas follow the
walkers of the first step. Each takes the two runs over the children for
granted and says that the runs over the whole agree then; which errors, values and trees are
compared is left open. `fillAttributes_agree` is the one for maps: its two passes see the siblings
of their own run, so that what is asked of a child is asked for all related siblings. A condition on
one parse is carried through a map in the same way (`fillAttributes_forall`).
-/

namespace ItemShape

inductive Agree {α β : Type} (E : SchemaError → SchemaError → Prop) (R : α → β → Prop) :
    Except SchemaError α → Except SchemaError β → Prop where
  | error {e e' : SchemaError} (h : E e e') : Agree E R (.error e) (.error e')
  | ok {a : α} {b : β} (h : R a b) : Agree E R (.ok a) (.ok b)

namespace Agree

variable {α β : Type} {E : SchemaError → SchemaError → Prop} {R S : α → β → Prop}
  {a : Except SchemaError α} {b : Except SchemaError β}

theorem cases (h : Agree E R a b) : (∃ e e', a = .error e ∧ b = .error e' ∧ E e e') ∨
    ∃ x y, a = .ok x ∧ b = .ok y ∧ R x y := by
  cases h with
  | error h => exact .inl ⟨_, _, rfl, rfl, h⟩
  | ok h => exact .inr ⟨_, _, rfl, rfl, h⟩

theorem imp (h : Agree E R a b) (hr : ∀ x y, R x y → S x y) : Agree E S a b := by
  cases h with
  | error h => exact .error h
  | ok h => exact .ok (hr _ _ h)

theorem map {γ δ : Type} {S : γ → δ → Prop} {f : α → γ} {g : β → δ} (h : Agree E R a b)
    (hfg : ∀ x y, R x y → S (f x) (g y)) : Agree E S (a.map f) (b.map g) := by
  cases h with
  | error h => exact .error h
  | ok h => exact .ok (hfg _ _ h)

theorem bind {γ δ : Type} {S : γ → δ → Prop} {f : α → Except SchemaError γ}
    {g : β → Except SchemaError δ} (h : Agree E R a b)
    (hfg : ∀ x y, R x y → Agree E S (f x) (g y)) : Agree E S (a.bind f) (b.bind g) := by
  cases h with
  | error h => exact .error h
  | ok h => exact hfg _ _ h

theorem eq {a b : Except SchemaError α} (h : Agree Eq Eq a b) : a = b := by
  cases h with
  | error h => rw [h]
  | ok h => rw [h]

/-- Two runs of which one succeeds if the other does. -/
theorem of_ok (h : ∀ x, a = .ok x → ∃ y, b = .ok y ∧ R x y)
    (back : ∀ y, b = .ok y → ∃ x, a = .ok x) : Agree (fun _ _ => True) R a b := by
  cases ha : a with
  | ok x =>
    obtain ⟨y, hb, hr⟩ := h x ha
    rw [hb]
    exact .ok hr
  | error e =>
    cases hb : b with
    | error e' => exact .error trivial
    | ok y =>
      obtain ⟨x, hx⟩ := back y hb
      rw [ha] at hx
      cases hx

theorem of_not_ok (h : ∀ x, a ≠ .ok x) (h' : ∀ y, b ≠ .ok y) : Agree (fun _ _ => True) R a b :=
  of_ok (fun x hx => absurd hx (h x)) fun y hy => absurd hy (h' y)

/-- Related entries, and then the same entries in another order. -/
theorem trans_perm {R : α → β → Prop} {a : Except SchemaError (List (String × α))}
    {b c : Except SchemaError (List (String × β))} (h : Agree (fun _ _ => True) (Entries.Rel R) a b)
    (hp : Agree (fun _ _ => True) List.Perm b c) :
    Agree (fun _ _ => True) (Entries.Matches R) a c := by
  cases h with
  | error _ =>
    cases hp with
    | error _ => exact .error trivial
  | ok hr =>
    cases hp with
    | ok hp => exact .ok ⟨_, hr, hp⟩

end Agree

/-! ## Optional values -/

theorem rel_of_refl {α : Type} {R : α → α → Prop} (h : ∀ a, R a a) (a : Option α) :
    Option.Rel R a a := by
  cases a with
  | none => exact .none
  | some a => exact .some (h a)

/-- Both are absent, or both present and related. -/
theorem rel_cases {α β : Type} {R : α → β → Prop} {a : Option α} {b : Option β}
    (h : Option.Rel R a b) : (a = none ∧ b = none) ∨ ∃ x y, a = some x ∧ b = some y ∧ R x y := by
  cases h with
  | none => exact .inl ⟨rfl, rfl⟩
  | some h => exact .inr ⟨_, _, rfl, rfl, h⟩

theorem isNone_eq_of_rel {α β : Type} {R : α → β → Prop} {a : Option α} {b : Option β}
    (h : Option.Rel R a b) : a.isNone = b.isNone := by
  cases h <;> rfl

/-! ## Lists, sets and records -/

variable {E : SchemaError → SchemaError → Prop} {V : Value → Value → Prop}
  {T : Filled → Filled → Prop} {s s' : Settings}

theorem fillItems_agree {f g : Settings → Option Value → Except SchemaError Filled}
    {items others : List Value}
    (h : List.Forall₂ (fun v w => ∀ position,
      Agree E T (f (s.at (s.path.index position)) (some v))
        (g (s'.at (s'.path.index position)) (some w))) items others) (position : Nat) :
    Agree E (List.Forall₂ T) (fillItems f s position items) (fillItems g s' position others) := by
  induction h generalizing position with
  | nil => exact .ok .nil
  | cons hfirst _ ih =>
    rw [fillItems_cons, fillItems_cons]
    exact (hfirst position).bind fun _ _ ht => (ih (position + 1)).map fun _ _ hts => .cons ht hts

theorem fillMembers_agree {f g : Option Value → Except SchemaError Filled}
    {members others : List Value}
    (h : List.Forall₂ (fun v w => Agree E T (f (some v)) (g (some w))) members others) :
    Agree E (List.Forall₂ T) (fillMembers f members) (fillMembers g others) := by
  induction h with
  | nil => exact .ok .nil
  | cons hfirst _ ih =>
    rw [fillMembers_cons, fillMembers_cons]
    exact hfirst.bind fun _ _ ht => ih.map fun _ _ hts => .cons ht hts

theorem fillEntries_agree {f g f' g' : Settings → Option Value → Except SchemaError Filled}
    {entries others : List (String × Value)}
    (hkey : ∀ key, Agree E (fun _ _ => True)
      (f (s.at (s.path.member key)) (some (.string key)))
      (g (s'.at (s'.path.member key)) (some (.string key))))
    (h : Entries.Rel (fun v w => ∀ key, Agree E T (f' (s.at (s.path.member key)) (some v))
      (g' (s'.at (s'.path.member key)) (some w))) entries others) :
    Agree E (Entries.Rel T) (fillEntries f f' s entries) (fillEntries g g' s' others) := by
  induction h with
  | nil => exact .ok .nil
  | @cons entry other _ _ hentry _ ih =>
    obtain ⟨key, v⟩ := entry
    obtain ⟨_, w⟩ := other
    obtain ⟨rfl, hvalue⟩ := hentry
    rw [fillEntries_cons, fillEntries_cons]
    exact (hkey key).bind fun _ _ _ => (hvalue key).bind fun _ _ ht =>
      ih.map fun _ _ hts => .cons ⟨rfl, ht⟩ hts

/-! ## Maps -/

/-- Slots of one attribute. -/
structure Slot.Rel {α β : Type} (R : α → β → Prop) (slot : Slot α) (other : Slot β) : Prop where
  name : slot.name = other.name
  stored : slot.stored = other.stored
  content : R slot.content other.content

theorem Slot.rel_eq_iff {α : Type} {slots others : List (Slot α)} :
    List.Forall₂ (Slot.Rel Eq) slots others ↔ slots = others := by
  have same : (Slot.Rel Eq : Slot α → Slot α → Prop) = Eq := by
    funext slot other
    refine propext ⟨?_, ?_⟩
    · rintro ⟨hname, hstored, hcontent⟩
      cases slot
      cases other
      simp_all
    · rintro rfl
      exact ⟨rfl, rfl, rfl⟩
  rw [same, List.forall₂_eq_eq_eq]

namespace Filled

variable (value : ∀ f g, T f g → Option.Rel V f.value? g.value?)

include value

theorem itemValues_rel {fs gs : List Filled} (h : List.Forall₂ T fs gs) :
    List.Forall₂ V (itemValues fs) (itemValues gs) := by
  induction h with
  | nil => exact .nil
  | cons hfirst _ ih =>
    rcases rel_cases (value _ _ hfirst) with ⟨hf, hg⟩ | ⟨v, w, hf, hg, hvw⟩
    · simp only [itemValues, hf, hg]
      exact ih
    · simp only [itemValues, hf, hg]
      exact .cons hvw ih

theorem entryValues_rel {fs gs : List (String × Filled)} (h : Entries.Rel T fs gs) :
    Entries.Rel V (entryValues fs) (entryValues gs) := by
  induction h with
  | nil => exact .nil
  | cons hentry _ ih =>
    obtain ⟨hname, hfilled⟩ := hentry
    rcases rel_cases (value _ _ hfilled) with ⟨hf, hg⟩ | ⟨v, w, hf, hg, hvw⟩
    · simp only [entryValues, hf, hg]
      exact ih
    · simp only [entryValues, hf, hg]
      exact .cons ⟨hname, hvw⟩ ih

theorem slotValues_rel {slots others : List (Slot Filled)}
    (h : List.Forall₂ (Slot.Rel T) slots others) :
    Entries.Rel V (slotValues slots) (slotValues others) := by
  induction h with
  | nil => exact .nil
  | cons hslot _ ih =>
    rcases rel_cases (value _ _ hslot.content) with ⟨hf, hg⟩ | ⟨v, w, hf, hg, hvw⟩
    · simp only [slotValues, hf, hg]
      exact ih
    · simp only [slotValues, hf, hg]
      exact .cons ⟨hslot.name, hvw⟩ ih

end Filled

section Attributes

variable {keyOnly : Bool} {scope scope' : Option LinkContext} {input input' : List (String × Value)}

/-- Siblings that two parses have seen: the same names in the same order, with related values. -/
structure Siblings (V : Value → Value → Prop) (siblings siblings' : List (String × Value)) :
    Prop where
  rel : Entries.Rel V siblings siblings'
  distinct : Entries.Distinct siblings

/-- The child, given one value or none in each parse, is filled alike among related siblings. -/
def Child.Agrees (E : SchemaError → SchemaError → Prop) (V : Value → Value → Prop)
    (T : Filled → Filled → Prop) (s s' : Settings) (scope scope' : Option LinkContext)
    (child : Child) (raw raw' : Option Value) : Prop :=
  ∀ siblings siblings', Siblings V siblings siblings' →
    Agree E T
      (child.fill (s.at (s.path.member child.name)) (some (.nested scope siblings)) raw)
      (child.fill (s'.at (s'.path.member child.name)) (some (.nested scope' siblings')) raw')

/-- What the first passes leave of one child. -/
inductive AttemptsAgree (E : SchemaError → SchemaError → Prop) (V : Value → Value → Prop)
    (T : Filled → Filled → Prop) (s s' : Settings) (scope scope' : Option LinkContext) :
    Child × Attempt → Child × Attempt → Prop where
  | skipped {child : Child} :
    AttemptsAgree E V T s s' scope scope' (child, .skipped) (child, .skipped)
  | deferred {child : Child} (h : child.Agrees E V T s s' scope scope' none none) :
    AttemptsAgree E V T s s' scope scope' (child, .deferred) (child, .deferred)
  | done {child : Child} {a b : Except SchemaError Filled} (h : Agree E T a b) :
    AttemptsAgree E V T s s' scope scope' (child, .done a) (child, .done b)

theorem Siblings.nil : Siblings V [] [] :=
  ⟨.nil, List.nodup_nil⟩

theorem Siblings.record {siblings siblings' : List (String × Value)}
    (hs : Siblings V siblings siblings') (name : String) {value value' : Option Value}
    (hv : Option.Rel V value value') :
    Siblings V (recordSibling siblings name value) (recordSibling siblings' name value') := by
  cases hv with
  | none => exact hs
  | some hv => exact ⟨hs.rel.insert name hv, Entries.distinct_insert hs.distinct⟩

/-- What is seen after a child agrees, whether or not siblings are recorded. -/
theorem Siblings.seen (hfill : s.fill = s'.fill) {siblings siblings' : List (String × Value)}
    (hs : Siblings V siblings siblings') (name : String) {value value' : Option Value}
    (hv : Option.Rel V value value') :
    Siblings V (if s.fill then recordSibling siblings name value else siblings)
      (if s'.fill then recordSibling siblings' name value' else siblings') := by
  rw [← hfill]
  split
  · exact hs.record name hv
  · exact hs

theorem outcomeValue?_rel (value : ∀ f g, T f g → Option.Rel V f.value? g.value?)
    {a b : Except SchemaError Filled} (h : Agree E T a b) :
    Option.Rel V (outcomeValue? a) (outcomeValue? b) := by
  cases h with
  | error _ => exact .none
  | ok h => exact value _ _ h

theorem fillDirect_agree (hfill : s.fill = s'.fill)
    (value : ∀ f g, T f g → Option.Rel V f.value? g.value?) {children : List Child}
    (given : ∀ child ∈ children,
      (Entries.get? child.name input).isNone = (Entries.get? child.name input').isNone)
    (skipped : ∀ child ∈ children, child.isParsed keyOnly = false →
      Option.Rel V (Entries.get? child.name input) (Entries.get? child.name input'))
    (each : ∀ child ∈ children, child.isParsed keyOnly = true → child.Agrees E V T s s' scope scope'
      (Entries.get? child.name input) (Entries.get? child.name input'))
    {siblings siblings' : List (String × Value)} (hs : Siblings V siblings siblings') :
    List.Forall₂ (AttemptsAgree E V T s s' scope scope')
        (fillDirect keyOnly s scope input children siblings).1
        (fillDirect keyOnly s' scope' input' children siblings').1 ∧
      Siblings V (fillDirect keyOnly s scope input children siblings).2
        (fillDirect keyOnly s' scope' input' children siblings').2 := by
  induction children generalizing siblings siblings' with
  | nil => exact ⟨.nil, hs⟩
  | cons child rest ih =>
    obtain ⟨absent, given⟩ := List.forall_mem_cons.mp given
    obtain ⟨hskipped, skipped⟩ := List.forall_mem_cons.mp skipped
    obtain ⟨hchild, each⟩ := List.forall_mem_cons.mp each
    simp only [fillDirect]
    by_cases hskip : (keyOnly && !child.isKey) = true
    · rw [if_pos hskip, if_pos hskip]
      have hraw := hskipped (by simpa [Child.isParsed] using hskip)
      obtain ⟨hattempts, hseen⟩ := ih given skipped each (hs.seen hfill child.name hraw)
      exact ⟨.cons .skipped hattempts, hseen⟩
    · rw [if_neg hskip, if_neg hskip]
      have hchild := hchild (by cases keyOnly <;> simp_all [Child.isParsed])
      by_cases hdefer : ((Entries.get? child.name input).isNone && s.fill && child.isLinked) = true
      · have hdefer' := hdefer
        rw [absent, hfill] at hdefer'
        rw [if_pos hdefer, if_pos hdefer']
        simp only [Bool.and_eq_true, Option.isNone_iff_eq_none] at hdefer hdefer'
        rw [hdefer.1.1, hdefer'.1.1] at hchild
        obtain ⟨hattempts, hseen⟩ := ih given skipped each hs
        exact ⟨.cons (.deferred hchild) hattempts, hseen⟩
      · have hdefer' := hdefer
        rw [absent, hfill] at hdefer'
        rw [if_neg hdefer, if_neg hdefer']
        have houtcome := hchild _ _ hs
        obtain ⟨hattempts, hseen⟩ :=
          ih given skipped each (hs.seen hfill child.name (outcomeValue?_rel value houtcome))
        exact ⟨.cons (.done houtcome) hattempts, hseen⟩

theorem fillDeferred_agree (value : ∀ f g, T f g → Option.Rel V f.value? g.value?)
    {attempts attempts' : List (Child × Attempt)}
    (h : List.Forall₂ (AttemptsAgree E V T s s' scope scope') attempts attempts')
    {siblings siblings' : List (String × Value)} (hs : Siblings V siblings siblings') :
    Agree E (List.Forall₂ (Slot.Rel T)) (fillDeferred s scope attempts siblings)
      (fillDeferred s' scope' attempts' siblings') := by
  induction h generalizing siblings siblings' with
  | nil => exact .ok .nil
  | cons hfirst _ ih =>
    cases hfirst with
    | skipped =>
      simp only [fillDeferred]
      exact ih hs
    | @deferred child hchild =>
      rw [fillDeferred_putOff, fillDeferred_putOff]
      exact (hchild _ _ hs).bind fun _ _ ht =>
        (ih (hs.record child.name (value _ _ ht))).map fun _ _ hts => .cons ⟨rfl, rfl, ht⟩ hts
    | done houtcome =>
      rw [fillDeferred_done, fillDeferred_done]
      exact houtcome.bind fun _ _ ht => (ih hs).map fun _ _ hts => .cons ⟨rfl, rfl, ht⟩ hts

/-- Two maps of the same attributes agree if they reject the same names or none, the same attributes
are given, related where they are skipped, and the others agree among related siblings. -/
theorem fillAttributes_agree (hfill : s.fill = s'.fill)
    (value : ∀ f g, T f g → Option.Rel V f.value? g.value?) {children : List Child}
    (declared : Option.Rel
      (fun name other =>
        E (.mismatch (s.path.member name) "declared attribute" "undeclared attribute")
        (.mismatch (s'.path.member other) "declared attribute" "undeclared attribute"))
      (undeclared? children input) (undeclared? children input'))
    (given : ∀ child ∈ children,
      (Entries.get? child.name input).isNone = (Entries.get? child.name input').isNone)
    (skipped : ∀ child ∈ children, child.isParsed keyOnly = false →
      Option.Rel V (Entries.get? child.name input) (Entries.get? child.name input'))
    (each : ∀ child ∈ children, child.isParsed keyOnly = true → child.Agrees E V T s s' scope scope'
      (Entries.get? child.name input) (Entries.get? child.name input')) :
    Agree E (fun f g => ∃ slots others, f = .map slots ∧ g = .map others ∧
        List.Forall₂ (Slot.Rel T) slots others)
      (fillAttributes children keyOnly s scope input)
      (fillAttributes children keyOnly s' scope' input') := by
  simp only [fillAttributes]
  generalize undeclared? children input = name at declared ⊢
  generalize undeclared? children input' = other at declared ⊢
  cases declared with
  | some h => exact .error h
  | none =>
    obtain ⟨hattempts, hseen⟩ :
        List.Forall₂ (AttemptsAgree E V T s s' scope scope')
            (fillDirect keyOnly s scope input children []).1
            (fillDirect keyOnly s' scope' input' children []).1 ∧
          Siblings V (fillDirect keyOnly s scope input children []).2
            (fillDirect keyOnly s' scope' input' children []).2 :=
      fillDirect_agree hfill value given skipped each .nil
    obtain ⟨e, e', hf, hg, he⟩ | ⟨xs, ys, hf, hg, hts⟩ :=
      (fillDeferred_agree value hattempts hseen).cases
    · simp only [hf, hg]
      exact .error he
    · simp only [hf, hg]
      exact .ok ⟨xs, ys, rfl, rfl, hts⟩

/-- Entries related to themselves. -/
theorem eq_and_forall_of_rel {P : Value → Prop} {entries others : List (String × Value)}
    (h : Entries.Rel (fun v w => v = w ∧ P v) entries others) :
    entries = others ∧ ∀ entry ∈ entries, P entry.2 := by
  induction h with
  | nil => exact ⟨rfl, List.forall_mem_nil _⟩
  | cons hentry _ ih =>
    obtain ⟨hname, hvalue, hp⟩ := hentry
    obtain ⟨rfl, hrest⟩ := ih
    exact ⟨congrArg (· :: _) (Prod.ext hname hvalue), List.forall_mem_cons.mpr ⟨hp, hrest⟩⟩

/-- What holds of the values that attributes see: it holds of all they yield, if each attribute
keeps it. The parse is compared with itself, over values of which it holds. -/
theorem fillAttributes_forall {P : Value → Prop} {Q : Filled → Prop} {children : List Child}
    {filled : Filled} (value : ∀ f v, Q f → f.value? = some v → P v)
    (skipped : ∀ child ∈ children, child.isParsed keyOnly = false → ∀ v,
      Entries.get? child.name input = some v → P v)
    (each : ∀ child ∈ children, child.isParsed keyOnly = true → ∀ siblings,
      (∀ entry ∈ siblings, P entry.2) → ∀ f,
        child.fill (s.at (s.path.member child.name)) (some (LinkContext.nested scope siblings))
          (Entries.get? child.name input) = .ok f → Q f)
    (h : fillAttributes children keyOnly s scope input = .ok filled) :
    ∃ slots, filled = .map slots ∧ ∀ slot ∈ slots, Q slot.content := by
  have agree : Agree (fun _ _ => True) (fun f g => ∃ slots others, f = .map slots ∧
        g = .map others ∧ List.Forall₂ (Slot.Rel fun f g => f = g ∧ Q f) slots others)
      (fillAttributes children keyOnly s scope input)
      (fillAttributes children keyOnly s scope input) := by
    refine fillAttributes_agree (V := fun v w => v = w ∧ P v) rfl ?value ?declared
      (fun _ _ => rfl) ?skipped ?each
    case value =>
      rintro f _ ⟨rfl, hf⟩
      cases hw : f.value? with
      | none => exact .none
      | some w => exact .some ⟨rfl, value f w hf hw⟩
    case declared => exact rel_of_refl (fun _ => trivial) _
    case skipped =>
      intro child hc hskip
      cases hraw : Entries.get? child.name input with
      | none => exact .none
      | some w => exact .some ⟨rfl, skipped child hc hskip w hraw⟩
    case each =>
      intro child hc hparsed siblings siblings' hsiblings
      obtain ⟨rfl, holds⟩ := eq_and_forall_of_rel hsiblings.rel
      cases hf : child.fill (s.at (s.path.member child.name))
          (some (LinkContext.nested scope siblings)) (Entries.get? child.name input) with
      | error e => exact .error trivial
      | ok f => exact .ok ⟨rfl, each child hc hparsed siblings holds f hf⟩
  obtain ⟨e, e', hf, -⟩ | ⟨f, g, hf, -, slots, others, rfl, -, hslots⟩ := agree.cases
  · rw [hf] at h
    cases h
  · rw [hf] at h
    cases h
    refine ⟨slots, rfl, fun slot hm => ?_⟩
    obtain ⟨other, -, hslot⟩ := exists_of_forall₂_left hslots slot hm
    exact hslot.content.2

end Attributes

/-! ## Nodes -/

section Nodes

variable {extension extension' : Option Extension} {scope scope' : Option LinkContext}

theorem fillFirst_agree {members : List Schema} {v w : Value}
    (h : ∀ member ∈ members, Agree E T (fillNode member extension s scope (some v))
      (fillNode member extension' s' scope' (some w))) :
    Option.Rel T (fillFirst members extension s scope v)
      (fillFirst members extension' s' scope' w) := by
  induction members with
  | nil =>
    simp only [fillFirst]
    exact .none
  | cons member rest ih =>
    rw [List.forall_mem_cons] at h
    obtain ⟨e, e', hf, hg, -⟩ | ⟨x, y, hf, hg, ht⟩ := h.1.cases
    · simp only [fillFirst, hf, hg]
      exact ih h.2
    · simp only [fillFirst, hf, hg]
      exact .some ht

/-! Kinds whose children agree, given values of the right type. -/

section Kinds

variable {elements : Schema} {transformer : Option Transformer}

theorem fillKind_list_agree {items others : List Value}
    (list : ∀ fs gs, List.Forall₂ T fs gs → T (.list fs) (.list gs))
    (h : List.Forall₂ (fun v w => ∀ position,
      Agree E T (fillNode elements extension (s.at (s.path.index position)) scope (some v))
        (fillNode elements extension' (s'.at (s'.path.index position)) scope' (some w)))
      items others) :
    Agree E T (fillKind (.list elements) transformer extension s scope (.list items))
      (fillKind (.list elements) transformer extension' s' scope' (.list others)) := by
  rw [fillKind_list_eq, fillKind_list_eq]
  exact (fillItems_agree h 0).map list

theorem fillKind_set_agree {members others : List Value}
    (set : ∀ fs gs, List.Forall₂ T fs gs → T (.set fs) (.set gs))
    (unique : Value.hasDuplicates members = Value.hasDuplicates others)
    (repeated : E (.mismatch s.path "set of unique members" "duplicate members")
      (.mismatch s'.path "set of unique members" "duplicate members"))
    (h : List.Forall₂ (fun v w => Agree E T (fillNode elements none s scope (some v))
      (fillNode elements none s' scope' (some w))) members others) :
    Agree E T (fillKind (.set elements) transformer extension s scope (.list members))
      (fillKind (.set elements) transformer extension' s' scope' (.list others)) := by
  rw [fillKind_set_eq, fillKind_set_eq, ← unique]
  cases Value.hasDuplicates members with
  | true => exact .error repeated
  | false => exact (fillMembers_agree h).map set

theorem fillKind_record_agree {keys : Schema} {input others : List (String × Value)}
    (record : ∀ fs gs, Entries.Rel T fs gs →
      T (.record keys.transformer? fs) (.record keys.transformer? gs))
    (hkey : ∀ key, Agree E (fun _ _ => True)
      (fillNode keys none (s.at (s.path.member key)) none (some (.string key)))
      (fillNode keys none (s'.at (s'.path.member key)) none (some (.string key))))
    (h : Entries.Rel (fun v w => ∀ key,
      Agree E T (fillNode elements extension (s.at (s.path.member key)) scope (some v))
        (fillNode elements extension' (s'.at (s'.path.member key)) scope' (some w))) input others) :
    Agree E T (fillKind (.record keys elements) transformer extension s scope (.map input))
      (fillKind (.record keys elements) transformer extension' s' scope' (.map others)) := by
  rw [fillKind_record_eq, fillKind_record_eq]
  exact (fillEntries_agree hkey h).map record

theorem fillKind_anyOf_agree {members : List Schema} {v w : Value}
    (rejected : E (.mismatch s.path (memberNames members) v.typeName)
      (.mismatch s'.path (memberNames members) w.typeName))
    (h : ∀ member ∈ members, Agree E T (fillNode member extension s scope (some v))
      (fillNode member extension' s' scope' (some w))) :
    Agree E T (fillKind (.anyOf members) transformer extension s scope v)
      (fillKind (.anyOf members) transformer extension' s' scope' w) := by
  have agree : Option.Rel T (fillFirst members extension s scope v)
      (fillFirst members extension' s' scope' w) := fillFirst_agree h
  simp only [fillKind]
  generalize fillFirst members extension s scope v = first at agree ⊢
  generalize fillFirst members extension' s' scope' w = other at agree ⊢
  cases agree with
  | none => exact .error rejected
  | some h => exact .ok h

end Kinds

variable {props : Props} {kind : Kind Schema} {input input' given given' : Option Value}

/-- Two absent nodes. -/
theorem fillNode_absent_agree (hmode : s.mode = s'.mode)
    (hc : Extension.consult extension (.mk props kind) s input = .unextended given)
    (hc' : Extension.consult extension' (.mk props kind) s' input' = .unextended given')
    (hr : resolved props s scope given = none) (hr' : resolved props s' scope' given' = none)
    (missing : E (.missing s.path) (.missing s'.path)) (absent : T .absent .absent) :
    Agree E T (fillNode (.mk props kind) extension s scope input)
      (fillNode (.mk props kind) extension' s' scope' input') := by
  rw [fillNode_unextended hc, fillNode_unextended hc']
  simp only [hr, hr', ← hmode]
  split
  · exact .error missing
  · exact .ok absent

/-- Two nodes with values: the kinds agree, and so do the checks on what they yield. -/
theorem fillNode_present_agree {v w : Value}
    (hc : Extension.consult extension (.mk props kind) s input = .unextended given)
    (hc' : Extension.consult extension' (.mk props kind) s' input' = .unextended given')
    (hr : resolved props s scope given = some v) (hr' : resolved props s' scope' given' = some w)
    (hkind : Agree E T (fillKind kind props.transformer extension s scope v)
      (fillKind kind props.transformer extension' s' scope' w))
    (check : ∀ f g, T f g → Agree E (fun _ _ => True) (checkFilled props kind.name s f)
      (checkFilled props kind.name s' g)) :
    Agree E T (fillNode (.mk props kind) extension s scope input)
      (fillNode (.mk props kind) extension' s' scope' input') := by
  rw [fillNode_unextended hc, fillNode_unextended hc']
  simp only [hr, hr']
  obtain ⟨e, e', hf, hg, he⟩ | ⟨x, y, hf, hg, ht⟩ := hkind.cases
  · simp only [hf, hg]
    exact .error he
  · obtain ⟨e, e', hk, hk', he⟩ | ⟨_, _, hk, hk', -⟩ := (check x y ht).cases
    · simp only [hf, hg, hk, hk']
      exact .error he
    · simp only [hf, hg, hk, hk']
      exact .ok ht

/-- A node that the extension owns takes the first step of its parser. -/
theorem fillNode_extended {parser : Parser}
    (h : Extension.consult extension (.mk props kind) s input = .extended parser) :
    fillNode (.mk props kind) extension s scope input =
      (parser.next.1.getD (.ok none)).map fun value => .extended value parser.next.2 := by
  simp only [fillNode, h]
  generalize parser.next = step
  rcases step with ⟨_ | _ | _, rest⟩ <;> rfl

/-- Two nodes that the extension owns. -/
theorem fillNode_extended_agree {parser parser' : Parser}
    (hc : Extension.consult extension (.mk props kind) s input = .extended parser)
    (hc' : Extension.consult extension' (.mk props kind) s' input' = .extended parser')
    (first : Agree E (fun value value' =>
        T (.extended value parser.next.2) (.extended value' parser'.next.2))
      (parser.next.1.getD (.ok none)) (parser'.next.1.getD (.ok none))) :
    Agree E T (fillNode (.mk props kind) extension s scope input)
      (fillNode (.mk props kind) extension' s' scope' input') := by
  rw [fillNode_extended hc, fillNode_extended hc']
  exact first.map fun _ _ h => h

end Nodes

end ItemShape
