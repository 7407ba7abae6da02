import ItemShape.Proofs.Parse.Filled
import ItemShape.Proofs.Parse.FirstError
import ItemShape.Proofs.Parse.Steps
import ItemShape.Proofs.Parse.Store
import ItemShape.Proofs.Parse.Update

/-!
# ItemShape.Proofs.Parse.KeyOnly

What a key is computed from. In key mode the attributes of an item outside its key are skipped, but
what the input has for them is there for links to see. Where no link runs, the steps of a parse
depend on the key attributes alone (`steps_of_key_attributes`).

* `Branch.SameFate`: two branches are skipped, or have one outcome whatever each of them sees.
* `keyAttributes`: the attributes whose names there are in a key.
-/

namespace ItemShape

/-! ## Two runs over one item -/

/-- Both are skipped, or both have one outcome, whatever each of them sees. -/
inductive Branch.SameFate : Branch → Branch → Prop where
  | skipped {branch other : Branch} (h : branch.role = .skipped) (h' : other.role = .skipped) :
    SameFate branch other
  | filled {branch other : Branch} (h : branch.role ≠ .skipped) (h' : other.role ≠ .skipped)
    (name : branch.name = other.name) (stored : branch.stored = other.stored)
    (fill : ∀ siblings siblings', branch.fill siblings = other.fill siblings') :
    SameFate branch other

theorem Branch.fillEach_eq_of_sameFate {branches others : List Branch}
    (h : List.Forall₂ SameFate branches others) (all all' earlier earlier' : List Branch) :
    fillEach all earlier branches = fillEach all' earlier' others := by
  induction h generalizing earlier earlier' with
  | nil => rfl
  | @cons branch other _ _ hfirst _ ih =>
    rw [fillEach, fillEach]
    cases hfirst with
    | skipped h h' =>
      rw [if_pos h, if_pos h']
      exact ih _ _
    | filled h h' name stored fill =>
      rw [if_neg h, if_neg h', name, stored, fill _ (other.visibleTo all' earlier'), ih]

variable {attributes : List (String × Schema)} {extension : Option Extension}
  {settings : Settings} {scope : Option LinkContext} {input input' : List (String × Value)}

/-- The inputs have the same for every attribute of the key. -/
def AgreeOnKey (attributes : List (String × Schema)) (input input' : List (String × Value)) :
    Prop :=
  ∀ entry ∈ attributes, entry.2.isKey = true →
    Entries.get? entry.1 input = Entries.get? entry.1 input'

theorem Kind.branches_sameFate (hmode : settings.mode = .key)
    (unlinked : ∀ entry ∈ attributes, entry.2.Unlinked settings)
    (agree : AgreeOnKey attributes input input') :
    List.Forall₂ Branch.SameFate
      (Kind.branches (.item attributes) attributes extension settings scope input)
      (Kind.branches (.item attributes) attributes extension settings scope input') := by
  have keyOnly : Kind.keyOnly (Kind.item attributes) settings.mode = true :=
    Kind.keyOnly_eq_true_iff.mpr ⟨rfl, hmode⟩
  rw [Kind.branches, Kind.branches, List.forall₂_map_left_iff, List.forall₂_map_right_iff,
    List.forall₂_same]
  intro entry he
  cases key : entry.2.isKey with
  | false =>
    refine .skipped ?_ ?_
    · simp [Role.of_eq_skipped_iff, keyOnly]
    · simp [Role.of_eq_skipped_iff, keyOnly]
  | true =>
    have raw : Entries.get? entry.1 input = Entries.get? entry.1 input' := agree entry he key
    refine .filled ?_ ?_ rfl rfl fun siblings siblings' => ?_
    · simp [Role.of_eq_skipped_iff]
    · simp [Role.of_eq_skipped_iff]
    · dsimp only
      rw [raw]
      exact (unlinked entry he).unscoped extension _ _ _ _

theorem fillKind_key_eq {transformer : Option Transformer} (hd : Entries.Distinct attributes)
    (hmode : settings.mode = .key) (unlinked : ∀ entry ∈ attributes, entry.2.Unlinked settings)
    (hu : Entries.names input ⊆ Entries.names attributes)
    (hu' : Entries.names input' ⊆ Entries.names attributes)
    (agree : AgreeOnKey attributes input input') :
    fillKind (.item attributes) transformer extension settings scope (.map input) =
      fillKind (.item attributes) transformer extension settings scope (.map input') := by
  have names (entries : List (String × Value)) :
      ((Kind.item attributes).branches attributes extension settings scope entries).map
        Branch.name = Entries.names attributes := List.map_map
  rw [fillKind_eq_fillMap rfl hd, fillKind_eq_fillMap rfl hd,
    Branch.fillMap_of_declared (by rwa [names]), Branch.fillMap_of_declared (by rwa [names]),
    Branch.fillEach_eq_of_sameFate (Kind.branches_sameFate hmode unlinked agree)]

/-! ## What a key contains -/

/-- The attributes that make up the key. -/
def keyAttributes (attributes : List (String × Schema)) : List (String × Schema) :=
  attributes.filter fun entry => entry.2.isKey

theorem slots_of_key {transformer : Option Transformer} {v : Value}
    {filled : Filled} (hmode : settings.mode = .key)
    (h : fillKind (.item attributes) transformer extension settings scope v = .ok filled) :
    ∃ slots, filled = .map slots ∧
      slots.map Slot.name = Entries.names (keyAttributes attributes) ∧
        slots.map Slot.stored =
          (keyAttributes attributes).map fun entry => entry.2.storedName entry.1 := by
  obtain ⟨input, slots, rfl, rfl, -, hslots⟩ := fillKind_attributes_ok rfl h
  rw [Kind.parsed_of_keyOnly (Kind.keyOnly_eq_true_iff.mpr ⟨rfl, hmode⟩)] at hslots
  exact ⟨slots, rfl, slot_names hslots, slot_storedNames hslots⟩

/-! ## Parsing -/

/-- In key mode the steps of an item depend on what the input has for the key attributes, and on
nothing else, where no link of the schema runs. What comes out has the names of key attributes
only, once filled, and their stored names only, once stored. -/
theorem steps_of_key_attributes {schema : Schema} {options : ParseOptions} (hb : schema.Built)
    (hk : schema.kind = .item attributes) (hmode : options.mode = .key)
    (hx : options.extension = none ∨ options.extension = some Update.extension)
    (hlinks : options.fill = false ∨ schema.Everywhere fun node => node.link? .key = none)
    (hu : Entries.names input ⊆ Entries.names attributes)
    (hu' : Entries.names input' ⊆ Entries.names attributes)
    (agree : AgreeOnKey attributes input input') :
    (schema.start options (some (.map input))).trace =
        (schema.start options (some (.map input'))).trace ∧
      (∀ f, schema.FillsTo options (some (.map input)) f → ∃ entries, f = some (.map entries) ∧
        Entries.names entries ⊆ Entries.names (keyAttributes attributes)) ∧
      ∀ f t, schema.StoresTo options (some (.map input)) f t → ∃ entries, t = some (.map entries) ∧
        Entries.names entries ⊆
          (keyAttributes attributes).map fun entry => entry.2.storedName entry.1 := by
  obtain ⟨props, kind⟩ := schema
  cases (hk : kind = .item attributes)
  let settings := options.toSettings
  have hmode : settings.mode = .key := hmode
  have handed (entries : List (String × Value)) :
      Extension.consult options.extension (.mk props (.item attributes)) settings
        (some (.map entries)) = .unextended (some (.map entries)) := consult_map hx _ _ _
  have given {filled : Filled} (hf : fillNode (.mk props (.item attributes)) options.extension
      settings none (some (.map input)) = .ok filled) :
      fillKind (.item attributes) props.transformer options.extension settings none (.map input) =
        .ok filled := ((fillNode_present_ok_iff (handed input) rfl).mp hf).1
  refine ⟨?steps, ?filled, ?stored⟩
  case steps =>
    have unlinked : ∀ entry ∈ attributes, entry.2.Unlinked settings := by
      intro entry he
      refine hlinks.imp id fun hlinks => ?_
      rw [hmode]
      exact hlinks.child (List.mem_map_of_mem he)
    have same : fillNode (.mk props (.item attributes)) options.extension settings none
          (some (.map input)) =
        fillNode (.mk props (.item attributes)) options.extension settings none
          (some (.map input')) := by
      rw [fillNode_unextended (handed input), fillNode_unextended (handed input')]
      simp only [resolved, fillKind_key_eq (hb.wellFormed.distinct rfl) hmode unlinked hu hu' agree]
    unfold Schema.start start
    rw [same]
  case filled =>
    intro f h
    obtain ⟨filled, hf, rfl⟩ := Schema.fillsTo_iff.mp h
    obtain ⟨slots, rfl, hnames, -⟩ := slots_of_key hmode (given hf)
    refine ⟨_, rfl, ?_⟩
    rw [← hnames]
    exact (Filled.names_slotValues slots).subset
  case stored =>
    intro f t h
    obtain ⟨filled, hf, -, ht⟩ := Schema.exists_filled_of_storesTo h
    obtain ⟨slots, rfl, -, hstored⟩ := slots_of_key hmode (given hf)
    simp only [Filled.store] at ht
    split at ht
    · cases ht
    · rename_i entries he
      cases ht
      refine ⟨entries, rfl, ?_⟩
      rw [← hstored]
      exact Filled.names_storeSlots he

/-- A note of the wrong type, and no note: the key is the same. -/
theorem steps_of_key_attributes_other_note :
    let id := ((Schema.scalar .string).savedAs "pk").makeKey
    let attributes := [("id", id), ("note", .scalar .string)]
    let schema := Schema.ofKind (.item attributes)
    let options := ParseOptions.ofMode .key
    let input := [("id", Value.string "u"), ("note", .bool true)]
    let input' := [("id", Value.string "u")]
    (schema.Built ∧ (schema.Everywhere fun node => node.link? .key = none) ∧
      AgreeOnKey attributes input input') ∧
      (schema.start options (some (.map input))).trace =
        (schema.start options (some (.map input'))).trace ∧
      schema.StoresTo options (some (.map input)) (some (.map [("id", .string "u")]))
        (some (.map [("pk", .string "u")])) := by
  intro id attributes schema options input input'
  have built : schema.Built := by
    refine .item (fun entry he => ?_) (rfl : Schema.item? attributes = .ok schema)
    rcases List.mem_cons.mp he with rfl | he
    · exact .withProps
        (.withProps (.scalar .string) fun props => { props with savedAs := some "pk" })
        fun props => { props with key := true, required := .always }
    · cases List.mem_singleton.mp he
      exact .scalar .string
  have unlinked : schema.Everywhere fun node => node.link? .key = none := by
    refine Schema.everywhere_iff.mpr ⟨rfl, List.forall_mem_cons.mpr
      ⟨Schema.everywhere_iff.mpr ⟨rfl, List.forall_mem_nil _⟩, List.forall_mem_singleton.mpr ?_⟩⟩
    exact Schema.everywhere_iff.mpr ⟨rfl, List.forall_mem_nil _⟩
  have agree : AgreeOnKey attributes input input' := by
    refine List.forall_mem_cons.mpr ⟨fun _ => rfl, List.forall_mem_singleton.mpr fun h => ?_⟩
    cases h
  have steps : (schema.start options (some (.map input))).trace =
      (schema.start options (some (.map input'))).trace :=
    (steps_of_key_attributes built rfl rfl (.inl rfl) (.inr unlinked) (by decide) (by decide)
      agree).1
  exact ⟨⟨built, unlinked, agree⟩, steps, _, _, rfl, rfl⟩

end ItemShape
