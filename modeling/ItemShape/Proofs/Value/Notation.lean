import ItemShape.Proofs.Json.Tree
import ItemShape.Proofs.Value.Equal
import ItemShape.Value.Document

/-!
# ItemShape.Proofs.Value.Notation

Operations in documents: which objects are read as operations, and what a document or a value is
after the way through the other (`operation_notation_round_trip`).

* `Operation.WrittenAs`: the members of an object that is read as an operation
  (`ofOperationJson_operation`, `ofOperationJson_map`).
* `Json.clearRemovals`: what is lost of a document that is read, the payloads of removals.
* `Value.HasAmbiguous`: values that are read as others when they have been written, because some
  map in them looks like an operation.
-/

namespace ItemShape

/-! ## Notation -/

/-- The members of an object that is read as an operation. The payload of a removal is not read. -/
inductive Operation.WrittenAs : Operation Json → List (String × Json) → Prop where
  | add (payload : Json) : WrittenAs (.add payload) [(OpTag.key .add, payload)]
  | delete (payload : Json) : WrittenAs (.delete payload) [(OpTag.key .delete, payload)]
  | set (payload : Json) : WrittenAs (.set payload) [(OpTag.key .set, payload)]
  | remove (payload : Json) : WrittenAs .remove [(OpTag.key .remove, payload)]
  | get (source : String) :
    WrittenAs (.get source none) [(OpTag.key .get, .array [.string source])]
  | getOr (source : String) (fallback : Json) :
    WrittenAs (.get source (some fallback)) [(OpTag.key .get, .array [.string source, fallback])]

/-- Maps that are written as an operation is: one entry under the key of an operation, for a
reference a list of a name and at most one more value. -/
inductive Value.Ambiguous : List (String × Value) → Prop where
  | operand {tag : OpTag} (ht : tag ≠ .get) (v : Value) : Ambiguous [(tag.key, v)]
  | get (source : String) : Ambiguous [(OpTag.key .get, .list [.string source])]
  | getOr (source : String) (fallback : Value) :
    Ambiguous [(OpTag.key .get, .list [.string source, fallback])]

/-- The value is an ambiguous map, or one stands somewhere in it. -/
inductive Value.HasAmbiguous : Value → Prop where
  | here {entries : List (String × Value)} (h : Ambiguous entries) : HasAmbiguous (.map entries)
  | item {items : List Value} {v : Value} (hm : v ∈ items) (h : HasAmbiguous v) :
    HasAmbiguous (.list items)
  | entry {entries : List (String × Value)} {name : String} {v : Value}
    (hm : (name, v) ∈ entries) (h : HasAmbiguous v) : HasAmbiguous (.map entries)
  | inner {operation : Operation Value} {v : Value} (hi : operation.inner? = some v)
    (h : HasAmbiguous v) : HasAmbiguous (.op operation)

mutual

/-- The document with null as the payload of every removal. -/
def Json.clearRemovals : Json → Json
  | .null => .null
  | .bool b => .bool b
  | .number n => .number n
  | .string s => .string s
  | .array items => .array (clearItems items)
  | .object members =>
    if Entries.names members = [OpTag.key .remove] then .object [(OpTag.key .remove, .null)]
    else .object (clearMembers members)

def clearItems : List Json → List Json
  | [] => []
  | item :: rest => item.clearRemovals :: clearItems rest

def clearMembers : List (String × Json) → List (String × Json)
  | [] => []
  | (name, value) :: rest => (name, value.clearRemovals) :: clearMembers rest

end

theorem OpTag.ofKey?_eq_some_iff {key : String} {tag : OpTag} :
    ofKey? key = some tag ↔ key = tag.key := by
  constructor
  · intro h
    have hkey := List.find?_some h
    exact (by simpa using hkey : tag.key = key).symm
  · rintro rfl
    cases tag <;> rfl

/-! ## Members one by one -/

theorem clearItems_eq_map (items : List Json) :
    clearItems items = items.map Json.clearRemovals := by
  induction items with
  | nil => rfl
  | cons item rest ih => rw [clearItems, ih, List.map_cons]

theorem clearMembers_eq_map (members : List (String × Json)) :
    clearMembers members = members.map fun entry => (entry.1, entry.2.clearRemovals) := by
  induction members with
  | nil => rfl
  | cons entry rest ih => rw [clearMembers, ih, List.map_cons]

namespace Value

theorem itemsToJson_eq_map (items : List Value) : itemsToJson items = items.map toJson := by
  induction items with
  | nil => rfl
  | cons item rest ih => rw [itemsToJson, ih, List.map_cons]

theorem entriesToJson_eq_map (entries : List (String × Value)) :
    entriesToJson entries = entries.map fun entry => (entry.1, entry.2.toJson) := by
  induction entries with
  | nil => rfl
  | cons entry rest ih => rw [entriesToJson, ih, List.map_cons]

theorem itemsOfOperationJson_eq_map (items : List Json) :
    itemsOfOperationJson items = items.map ofOperationJson := by
  induction items with
  | nil => rfl
  | cons item rest ih => rw [itemsOfOperationJson, ih, List.map_cons]

theorem entriesOfOperationJson_eq_map (members : List (String × Json)) :
    entriesOfOperationJson members =
      members.map fun entry => (entry.1, ofOperationJson entry.2) := by
  induction members with
  | nil => rfl
  | cons entry rest ih => rw [entriesOfOperationJson, ih, List.map_cons]

end Value

/-! ## Reading -/

namespace Operation

variable {α β : Type}

/-- The same operation around the image of its value. -/
def map (f : α → β) : Operation α → Operation β
  | .add operand => .add (f operand)
  | .delete operand => .delete (f operand)
  | .set operand => .set (f operand)
  | .remove => .remove
  | .get source fallback => .get source (fallback.map f)

theorem map_map {γ : Type} (f : α → β) (g : β → γ) (o : Operation α) :
    (o.map f).map g = o.map (g ∘ f) := by
  cases o <;> simp [map]

theorem map_eq_self_iff {f : α → α} {o : Operation α} :
    o.map f = o ↔ ∀ v, o.inner? = some v → f v = v := by
  cases o with
  | get source fallback => cases fallback <;> simp [map, inner?]
  | _ => simp [map, inner?]

end Operation

namespace Value

theorem ofOperationJson_operation {o : Operation Json} {members : List (String × Json)}
    (h : o.WrittenAs members) :
    ofOperationJson (.object members) = .op (o.map ofOperationJson) := by
  have recognised (tag : OpTag) : OpTag.ofKey? tag.key = some tag :=
    OpTag.ofKey?_eq_some_iff.mpr rfl
  cases h <;> unfold ofOperationJson <;> simp only [recognised, Operation.map, Option.map]

/-- What is not written as an operation is a map. -/
theorem ofOperationJson_map {members : List (String × Json)}
    (h : ∀ o : Operation Json, ¬ o.WrittenAs members) : ofOperationJson (.object members) =
      .map (members.map fun entry => (entry.1, ofOperationJson entry.2)) := by
  match members with
  | [] => rfl
  | [(name, payload)] =>
    rw [List.map_singleton]
    generalize hread : ofOperationJson payload = v
    unfold ofOperationJson
    split
    · rename_i hname
      cases OpTag.ofKey?_eq_some_iff.mp hname
      exact absurd (.add payload) (h _)
    · rename_i hname
      cases OpTag.ofKey?_eq_some_iff.mp hname
      exact absurd (.delete payload) (h _)
    · rename_i hname
      cases OpTag.ofKey?_eq_some_iff.mp hname
      exact absurd (.set payload) (h _)
    · rename_i hname
      cases OpTag.ofKey?_eq_some_iff.mp hname
      exact absurd (.remove payload) (h _)
    · rename_i hname
      cases OpTag.ofKey?_eq_some_iff.mp hname
      split
      · exact absurd (.get _) (h _)
      · exact absurd (.getOr _ _) (h _)
      · rw [hread]
    · rw [hread]
  | first :: second :: rest =>
    rw [ofOperationJson, entriesOfOperationJson_eq_map]
    simp

theorem ofOperationJson_array (items : List Json) :
    ofOperationJson (.array items) = .list (items.map ofOperationJson) := by
  rw [ofOperationJson, itemsOfOperationJson_eq_map]

/-! ## Writing -/

theorem toJson_list (items : List Value) : toJson (.list items) = .array (items.map toJson) := by
  rw [toJson, itemsToJson_eq_map]

theorem toJson_map (entries : List (String × Value)) :
    toJson (.map entries) = .object (entries.map fun entry => (entry.1, entry.2.toJson)) := by
  rw [toJson, entriesToJson_eq_map]

/-- An operation is written in the notation. -/
theorem toJson_operation (o : Operation Value) :
    ∃ members, toJson (.op o) = .object members ∧ (o.map toJson).WrittenAs members := by
  cases o with
  | add operand => exact ⟨_, rfl, .add _⟩
  | delete operand => exact ⟨_, rfl, .delete _⟩
  | set operand => exact ⟨_, rfl, .set _⟩
  | remove => exact ⟨_, rfl, .remove _⟩
  | get source fallback =>
    cases fallback with
    | none => exact ⟨_, rfl, .get source⟩
    | some fallback => exact ⟨_, rfl, .getOr source _⟩

/-! ## Ambiguous maps -/

/-- A relation between documents and values that shows texts and lists on either side. -/
structure Mirrors (R : Json → Value → Prop) : Prop where
  string : ∀ j v, R j v → ∀ s, j = .string s ↔ v = .string s
  array : ∀ items v, R (.array items) v → ∃ vs, v = .list vs ∧ List.Forall₂ R items vs
  list : ∀ j vs, R j (.list vs) → ∃ items, j = .array items ∧ List.Forall₂ R items vs

theorem mirrors_toJson : Mirrors fun j v => v.toJson = j where
  string j v h s := by
    subst h
    cases v with
    | op o =>
      obtain ⟨members, hj, -⟩ := toJson_operation o
      simp [hj]
    | _ => simp [toJson]
  array items v h := by
    cases v with
    | list vs =>
      rw [toJson_list] at h
      cases h
      exact ⟨vs, rfl, by simp [List.forall₂_map_left_iff, List.forall₂_same]⟩
    | op o =>
      obtain ⟨members, hj, -⟩ := toJson_operation o
      rw [hj] at h
      cases h
    | _ => simp [toJson] at h
  list j vs h := by
    subst h
    refine ⟨_, toJson_list vs, ?_⟩
    simp [List.forall₂_map_left_iff, List.forall₂_same]

theorem mirrors_ofOperationJson : Mirrors fun j v => ofOperationJson j = v where
  string j v h s := by
    subst h
    cases j with
    | object members =>
      by_cases hw : ∃ o : Operation Json, o.WrittenAs members
      · obtain ⟨o, hw⟩ := hw
        simp [ofOperationJson_operation hw]
      · simp [ofOperationJson_map (not_exists.mp hw)]
    | _ => simp [ofOperationJson]
  array items v h := by
    subst h
    refine ⟨_, ofOperationJson_array items, ?_⟩
    simp [List.forall₂_map_right_iff, List.forall₂_same]
  list j vs h := by
    cases j with
    | array items =>
      rw [ofOperationJson_array] at h
      cases h
      exact ⟨items, rfl, by simp [List.forall₂_map_right_iff, List.forall₂_same]⟩
    | object members =>
      by_cases hw : ∃ o : Operation Json, o.WrittenAs members
      · obtain ⟨o, hw⟩ := hw
        rw [ofOperationJson_operation hw] at h
        cases h
      · rw [ofOperationJson_map (not_exists.mp hw)] at h
        cases h
    | _ => simp [ofOperationJson] at h

theorem Mirrors.exists_member {R : Json → Value → Prop} {members : List (String × Json)}
    {name : String} {v : Value} (h : Entries.Rel R members [(name, v)]) :
    ∃ j, members = [(name, j)] ∧ R j v := by
  obtain ⟨⟨key, j⟩, rest, ⟨hname, hr⟩, hrest, rfl⟩ := List.forall₂_cons_right_iff.mp h
  cases hname
  cases hrest
  exact ⟨j, rfl, hr⟩

theorem Mirrors.exists_entry {R : Json → Value → Prop} {entries : List (String × Value)}
    {name : String} {j : Json} (h : Entries.Rel R [(name, j)] entries) :
    ∃ v, entries = [(name, v)] ∧ R j v := by
  obtain ⟨⟨key, v⟩, rest, ⟨hname, hr⟩, hrest, rfl⟩ := List.forall₂_cons_left_iff.mp h
  cases hname
  cases hrest
  exact ⟨v, rfl, hr⟩

/-- A map is ambiguous if it stands for an object that is read as an operation. -/
theorem Mirrors.ambiguous_iff {R : Json → Value → Prop} (hR : Mirrors R)
    {members : List (String × Json)} {entries : List (String × Value)}
    (h : Entries.Rel R members entries) :
    Ambiguous entries ↔ ∃ o : Operation Json, o.WrittenAs members := by
  constructor
  · intro ha
    cases ha with
    | @operand tag ht v =>
      obtain ⟨j, rfl, -⟩ := exists_member h
      cases tag with
      | add => exact ⟨_, .add j⟩
      | delete => exact ⟨_, .delete j⟩
      | remove => exact ⟨_, .remove j⟩
      | set => exact ⟨_, .set j⟩
      | get => exact absurd rfl ht
    | get source =>
      obtain ⟨j, rfl, hj⟩ := exists_member h
      obtain ⟨items, rfl, hitems⟩ := hR.list _ _ hj
      obtain ⟨first, _, hfirst, hrest, rfl⟩ := List.forall₂_cons_right_iff.mp hitems
      cases hrest
      cases (hR.string _ _ hfirst source).mpr rfl
      exact ⟨_, .get source⟩
    | getOr source fallback =>
      obtain ⟨j, rfl, hj⟩ := exists_member h
      obtain ⟨items, rfl, hitems⟩ := hR.list _ _ hj
      obtain ⟨first, _, hfirst, hrest, rfl⟩ := List.forall₂_cons_right_iff.mp hitems
      obtain ⟨second, _, -, hnil, rfl⟩ := List.forall₂_cons_right_iff.mp hrest
      cases hnil
      cases (hR.string _ _ hfirst source).mpr rfl
      exact ⟨_, .getOr source second⟩
  · rintro ⟨o, hw⟩
    cases hw with
    | add payload | delete payload | set payload | remove payload =>
      obtain ⟨v, rfl, -⟩ := exists_entry h
      exact .operand (by decide) v
    | get source =>
      obtain ⟨v, rfl, hv⟩ := exists_entry h
      obtain ⟨vs, rfl, hvs⟩ := hR.array _ _ hv
      obtain ⟨first, _, hfirst, hrest, rfl⟩ := List.forall₂_cons_left_iff.mp hvs
      cases hrest
      cases (hR.string _ _ hfirst source).mp rfl
      exact .get source
    | getOr source fallback =>
      obtain ⟨v, rfl, hv⟩ := exists_entry h
      obtain ⟨vs, rfl, hvs⟩ := hR.array _ _ hv
      obtain ⟨first, _, hfirst, hrest, rfl⟩ := List.forall₂_cons_left_iff.mp hvs
      obtain ⟨second, _, -, hnil, rfl⟩ := List.forall₂_cons_left_iff.mp hrest
      cases hnil
      cases (hR.string _ _ hfirst source).mp rfl
      exact .getOr source second

/-- The map is written as an object that is read as an operation. -/
theorem ambiguous_iff_toJson {entries : List (String × Value)} : Ambiguous entries ↔
    ∃ o : Operation Json, o.WrittenAs (entries.map fun entry => (entry.1, entry.2.toJson)) := by
  refine mirrors_toJson.ambiguous_iff ?_
  simp [Entries.Rel, List.forall₂_map_left_iff, List.forall₂_same]

theorem ambiguous_iff_ofOperationJson {members : List (String × Json)} :
    Ambiguous (members.map fun entry => (entry.1, ofOperationJson entry.2)) ↔
      ∃ o : Operation Json, o.WrittenAs members := by
  refine mirrors_ofOperationJson.ambiguous_iff ?_
  simp [Entries.Rel, List.forall₂_map_right_iff, List.forall₂_same]

theorem hasAmbiguous_list {items : List Value} :
    (Value.list items).HasAmbiguous ↔ ∃ v ∈ items, v.HasAmbiguous := by
  constructor
  · intro h
    cases h with
    | item hm h => exact ⟨_, hm, h⟩
  · rintro ⟨v, hm, h⟩
    exact .item hm h

theorem hasAmbiguous_map {entries : List (String × Value)} : (Value.map entries).HasAmbiguous ↔
    Ambiguous entries ∨ ∃ entry ∈ entries, entry.2.HasAmbiguous := by
  constructor
  · intro h
    cases h with
    | here h => exact .inl h
    | entry hm h => exact .inr ⟨_, hm, h⟩
  · rintro (h | ⟨⟨name, v⟩, hm, h⟩)
    · exact .here h
    · exact .entry hm h

theorem hasAmbiguous_op {operation : Operation Value} : (Value.op operation).HasAmbiguous ↔
    ∃ v, operation.inner? = some v ∧ v.HasAmbiguous := by
  constructor
  · intro h
    cases h with
    | inner hi h => exact ⟨_, hi, h⟩
  · rintro ⟨v, hi, h⟩
    exact .inner hi h

/-! ## There and back -/

/-- Written and read, a value comes back unless a map in it is ambiguous. -/
theorem ofOperationJson_toJson_iff (v : Value) :
    ofOperationJson v.toJson = v ↔ ¬ v.HasAmbiguous := by
  induction v using Value.induct with
  | list items ih =>
    rw [toJson_list, ofOperationJson_array, List.map_map, Value.list.injEq, map_eq_self_iff,
      hasAmbiguous_list]
    push Not
    exact forall₂_congr ih
  | map entries ih =>
    by_cases ha : Ambiguous entries
    · obtain ⟨o, hw⟩ := ambiguous_iff_toJson.mp ha
      rw [toJson_map, ofOperationJson_operation hw, hasAmbiguous_map]
      simp [ha]
    · have hw := not_exists.mp (mt ambiguous_iff_toJson.mpr ha)
      rw [toJson_map, ofOperationJson_map hw, List.map_map, Value.map.injEq, map_eq_self_iff,
        hasAmbiguous_map, or_iff_right ha]
      push Not
      refine forall₂_congr fun entry he => ?_
      rw [← ih entry he]
      exact Prod.ext_iff.trans (and_iff_right rfl)
  | op operation ih =>
    obtain ⟨members, hj, hw⟩ := toJson_operation operation
    rw [hj, ofOperationJson_operation hw, Operation.map_map, Value.op.injEq,
      Operation.map_eq_self_iff, hasAmbiguous_op]
    push Not
    exact forall₂_congr ih
  | _ =>
    refine iff_of_true rfl fun h => ?_
    cases h

/-- What is read is not ambiguous: what looks like an operation has been read as one. -/
theorem not_hasAmbiguous_ofOperationJson (j : Json) : ¬ (ofOperationJson j).HasAmbiguous := by
  induction j using Json.induct with
  | array items ih =>
    rw [ofOperationJson_array, hasAmbiguous_list]
    rintro ⟨v, hv, h⟩
    obtain ⟨item, hi, rfl⟩ := List.mem_map.mp hv
    exact ih item hi h
  | object members ih =>
    by_cases hw : ∃ o : Operation Json, o.WrittenAs members
    · obtain ⟨o, hw⟩ := hw
      rw [ofOperationJson_operation hw, hasAmbiguous_op]
      rintro ⟨v, hv, h⟩
      cases hw with
      | add payload | delete payload | set payload =>
        cases hv
        exact ih _ List.mem_cons_self h
      | remove payload => cases hv
      | get source => cases hv
      | getOr source fallback =>
        cases hv
        -- the fallback stands inside the only member, next to the name
        refine ih _ List.mem_cons_self ?_
        rw [ofOperationJson_array, hasAmbiguous_list]
        exact ⟨_, by simp, h⟩
    · rw [ofOperationJson_map (not_exists.mp hw), hasAmbiguous_map, ambiguous_iff_ofOperationJson]
      rintro (h | ⟨entry, he, h⟩)
      · exact hw h
      · obtain ⟨member, hm, rfl⟩ := List.mem_map.mp he
        exact ih member hm h
  | _ =>
    intro h
    cases h

theorem clearRemovals_array (items : List Json) :
    (Json.array items).clearRemovals = .array (items.map Json.clearRemovals) := by
  rw [Json.clearRemovals, clearItems_eq_map]

theorem clearRemovals_object {members : List (String × Json)}
    (h : Entries.names members ≠ [OpTag.key .remove]) : (Json.object members).clearRemovals =
      .object (members.map fun entry => (entry.1, entry.2.clearRemovals)) := by
  rw [Json.clearRemovals, if_neg h, clearMembers_eq_map]

/-- Read and written, a document keeps all but the payloads of its removals. -/
theorem toJson_ofOperationJson (j : Json) : (ofOperationJson j).toJson = j.clearRemovals := by
  induction j using Json.induct with
  | array items ih =>
    rw [ofOperationJson_array, toJson_list, clearRemovals_array, List.map_map]
    exact congrArg Json.array (List.map_congr_left ih)
  | object members ih =>
    have each : (members.map fun entry => (entry.1, (ofOperationJson entry.2).toJson)) =
        members.map fun entry => (entry.1, entry.2.clearRemovals) :=
      List.map_congr_left fun entry he => by rw [ih entry he]
    by_cases hw : ∃ o : Operation Json, o.WrittenAs members
    · obtain ⟨o, hw⟩ := hw
      rw [ofOperationJson_operation hw]
      cases hw with
      | remove payload => rfl
      | add payload | delete payload | set payload =>
        rw [clearRemovals_object (by simp [Entries.names, OpTag.key]), ← each]
        rfl
      | get source | getOr source fallback =>
        rw [clearRemovals_object (by simp [Entries.names, OpTag.key]), ← each, List.map_singleton,
          ofOperationJson_array, toJson_list]
        rfl
    · have hw := not_exists.mp hw
      have hnot : Entries.names members ≠ [OpTag.key .remove] := by
        intro hnames
        obtain ⟨⟨_, payload⟩, rfl, rfl⟩ := List.map_eq_singleton_iff.mp hnames
        exact hw _ (.remove payload)
      rw [ofOperationJson_map hw, toJson_map, clearRemovals_object hnot, List.map_map, ← each]
      rfl
  | _ => rfl

/-- A document that is read and written loses nothing but the payloads of removals, and is read
again as the same value. A value that is written and read comes back, unless one of its maps looks
like an operation. -/
theorem operation_notation_round_trip :
    (∀ j, ofOperationJson (ofOperationJson j).toJson = ofOperationJson j ∧
      (ofOperationJson j).toJson = j.clearRemovals) ∧
    ∀ v, ofOperationJson v.toJson = v ↔ ¬ v.HasAmbiguous :=
  ⟨fun j => ⟨(ofOperationJson_toJson_iff _).mpr (not_hasAmbiguous_ofOperationJson j),
    toJson_ofOperationJson j⟩, ofOperationJson_toJson_iff⟩

end Value
end ItemShape
