import ItemShape.Parse

/-!
# ItemShape.Proofs.Parse.Steps

The two steps of a parse, as a caller sees them: `Parser.outcomes` for the whole sequence,
`Schema.FillsTo` for what the first step yields, `Schema.StoresTo` for the value of the second one.
-/

namespace ItemShape

/-- The outcomes of the steps to come. -/
def Parser.outcomes (parser : Parser) : List Outcome :=
  parser.trace.map Prod.fst

/-- An error ends the sequence, and so does the first step if the second is not requested. -/
theorem Parser.outcomes_new (transform : Bool) (filled stored : Outcome) :
    (new transform filled stored).outcomes =
      match filled with
      | .error e => [.error e]
      | .ok value => .ok value :: if transform then [stored] else [] := by
  cases filled with
  | error e => rfl
  | ok value => cases transform <;> rfl

@[simp] theorem step_new (transform : Bool) (filled stored : Outcome) :
    Update.step (.new transform filled stored) = filled := by
  cases filled <;> rfl

theorem step_start_ok_iff {schema : Schema} {extension : Option Extension} {settings : Settings}
    {input value : Option Value} : Update.step (start schema extension settings input) = .ok value ↔
      ∃ filled, fillNode schema extension settings none input = .ok filled ∧
        filled.value? = value := by
  unfold start
  cases fillNode schema extension settings none input with
  | error e => simp
  | ok filled => simp

namespace Schema

variable {schema : Schema} {options : ParseOptions} {input f t : Option Value}

/-- The first step yields `f`; `none` is an absent value. -/
def FillsTo (schema : Schema) (options : ParseOptions) (input f : Option Value) : Prop :=
  ∃ rest, (schema.start options input).next = (some (.ok f), rest)

/-- The first step yields `f` and the second one `t`. -/
def StoresTo (schema : Schema) (options : ParseOptions) (input f t : Option Value) : Prop :=
  ∃ rest last, (schema.start options input).next = (some (.ok f), rest) ∧
    rest.next = (some (.ok t), last)

theorem fillsTo_iff : schema.FillsTo options input f ↔
    ∃ filled, fillNode schema options.extension options.toSettings none input = .ok filled ∧
      filled.value? = f := by
  unfold FillsTo Schema.start ItemShape.start
  cases fillNode schema options.extension options.toSettings none input with
  | error e => simp [Parser.new, Parser.next]
  | ok filled => simp [Parser.new, Parser.next]

theorem exists_filled_of_storesTo (h : schema.StoresTo options input f t) :
    ∃ filled, fillNode schema options.extension options.toSettings none input = .ok filled ∧
      filled.value? = f ∧ filled.store options.path = .ok t := by
  obtain ⟨rest, last, hf, ht⟩ := h
  unfold Schema.start ItemShape.start at hf
  cases hn : fillNode schema options.extension options.toSettings none input with
  | error e =>
    rw [hn] at hf
    simp [Parser.new, Parser.next] at hf
  | ok filled =>
    rw [hn] at hf
    simp only [Parser.new, Parser.next, Prod.mk.injEq, Option.some.injEq, Except.ok.injEq] at hf
    obtain ⟨hv, rfl⟩ := hf
    refine ⟨filled, rfl, hv, ?_⟩
    cases hs : options.transform <;> rw [hs] at ht <;> simp [Parser.next] at ht
    exact ht.1

end Schema
end ItemShape
