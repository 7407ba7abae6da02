import ItemShape.Proofs.Parse.Fill
import ItemShape.Proofs.Value.Equal

/-!
# ItemShape.Proofs.Parse.Keeps

What it means for a filled value to contain its input.

`Keeps mode fill schema v w` says that `w` is `v` with nothing lost and nothing changed: attributes
may have been added to maps and items, each of them declared, with a link or a default for the mode
and only where filling is on. `Keeps.equal` is the case without filling: then `w` is equal to `v`.
In key mode an item counts with its key attributes only (`Schema.considered`).
-/

namespace ItemShape

/-- An item without the attributes outside its key, also where it is the fallback of a reference;
other values as they are. -/
def Schema.keyPart (schema : Schema) : Value → Value
  | .map entries =>
    match schema.kind with
    | .item attributes =>
      .map (entries.filter fun entry =>
        Entries.contains entry.1 (attributes.filter fun declared => declared.2.isKey))
    | _ => .map entries
  | .op (.get source (some fallback)) => .op (.get source (some (schema.keyPart fallback)))
  | other => other

/-- The part of an input that a parse in this mode looks at. -/
def Schema.considered (schema : Schema) (mode : Mode) (input : Value) : Value :=
  if mode = .key then schema.keyPart input else input

inductive Keeps (mode : Mode) (fill : Bool) : Schema → Value → Value → Prop where
  | scalar {props : Props} {kind : ScalarKind} {v : Value} :
    Keeps mode fill (.mk props (.scalar kind)) v v
  | set {props : Props} {elements : Schema} {members : List Value} :
    Keeps mode fill (.mk props (.set elements)) (.list members) (.list members)
  | list {props : Props} {elements : Schema} {items others : List Value}
    (length : items.length = others.length)
    (each : ∀ pair ∈ items.zip others, Keeps mode fill elements pair.1 pair.2) :
    Keeps mode fill (.mk props (.list elements)) (.list items) (.list others)
  | record {props : Props} {keys elements : Schema} {entries others : List (String × Value)}
    (names : Entries.names entries = Entries.names others)
    (each : ∀ pair ∈ entries.zip others, Keeps mode fill elements pair.1.2 pair.2.2) :
    Keeps mode fill (.mk props (.record keys elements)) (.map entries) (.map others)
  /-- Maps and items: every entry is kept under its attribute, and the others are filled ones. -/
  | attributes {props : Props} {kind : Kind Schema} {attributes : List (String × Schema)}
    {entries others : List (String × Value)} (declares : kind.attributes? = some attributes)
    (distinct : Entries.Distinct others)
    (declared : Entries.names entries ⊆ Entries.names (kind.parsed mode attributes))
    (kept : Entries.names entries ⊆ Entries.names others)
    (each : ∀ name schema, (name, schema) ∈ kind.parsed mode attributes → ∀ v w,
      Entries.get? name entries = some v → Entries.get? name others = some w →
        Keeps mode fill schema v w)
    (added : ∀ name ∈ Entries.names others, name ∉ Entries.names entries → fill = true ∧
      ∃ schema, (name, schema) ∈ kind.parsed mode attributes ∧
        ((schema.link? mode).isSome ∨ (schema.default? mode).isSome)) :
    Keeps mode fill (.mk props kind) (.map entries) (.map others)
  | anyOf {props : Props} {members : List Schema} {member : Schema} {v w : Value}
    (accepts : member ∈ members) (each : Keeps mode fill member v w) :
    Keeps mode fill (.mk props (.anyOf members)) v w
  /-- The same tag, around an equal operand or fallback. -/
  | operation {schema : Schema} {operation other : Operation Value}
    (inner : operation.Rel (fun v w => v.equal w = true) other)
    (distinct : (Value.op other).DistinctNames) :
    Keeps mode fill schema (.op operation) (.op other)

/-! ## The part of the key -/

theorem Schema.keyPart_of_not_item {schema : Schema} (h : schema.isItem = false) :
    ∀ v, schema.keyPart v = v := by
  have hk : ∀ attributes, schema.kind ≠ .item attributes := by
    intro attributes hk
    simp [Schema.isItem, Schema.kindName, hk, Kind.name] at h
  intro v
  induction v using Value.induct with
  | map entries _ =>
    rw [keyPart]
    split
    · rename_i hi
      exact absurd hi (hk _)
    · rfl
  | op operation ih =>
    rcases operation with _ | _ | _ | _ | ⟨source, _ | fallback⟩
    case get.some => rw [keyPart, ih fallback rfl]
    all_goals rfl
  | _ => rfl

theorem Schema.considered_of_not_item {schema : Schema} (h : schema.isItem = false) (mode : Mode)
    (v : Value) : schema.considered mode v = v := by
  rw [considered, keyPart_of_not_item h, ite_self]

theorem Schema.considered_op_get (schema : Schema) (mode : Mode) (source : String)
    (fallback : Option Value) : schema.considered mode (.op (.get source fallback)) =
      .op (.get source (fallback.map (schema.considered mode))) := by
  cases fallback with
  | none => simp [considered, keyPart]
  | some fallback =>
    by_cases hm : mode = .key
    · simp [considered, keyPart, hm]
    · simp [considered, hm]

theorem Schema.distinctNames_keyPart (schema : Schema) {v : Value} (h : v.DistinctNames) :
    (schema.keyPart v).DistinctNames := by
  induction v using Value.induct with
  | map entries _ =>
    rw [keyPart]
    split
    · rw [Value.distinctNames_map] at h ⊢
      exact ⟨h.1.sublist List.filter_sublist, fun entry he => h.2 entry (List.mem_of_mem_filter he)⟩
    · exact h
  | op operation ih =>
    rcases operation with _ | _ | _ | _ | ⟨source, _ | fallback⟩
    case get.some => exact ih fallback rfl h
    all_goals exact h
  | _ => exact h

theorem Schema.distinctNames_considered (schema : Schema) (mode : Mode) {v : Value}
    (h : v.DistinctNames) : (schema.considered mode v).DistinctNames := by
  rw [considered]
  split
  · exact schema.distinctNames_keyPart h
  · exact h

/-- With all names declared, what a parse looks at are the entries of the parsed attributes. -/
theorem considered_map {props : Props} {kind : Kind Schema}
    {attributes : List (String × Schema)} (hk : kind.attributes? = some attributes) {mode : Mode}
    {entries : List (String × Value)} (hu : Entries.names entries ⊆ Entries.names attributes) :
    (Schema.mk props kind).considered mode (.map entries) =
      .map (entries.filter fun entry =>
        Entries.contains entry.1 (kind.parsed mode attributes)) := by
  have all : (entries.filter fun entry => Entries.contains entry.1 attributes) = entries := by
    refine List.filter_eq_self.mpr fun entry he => ?_
    obtain ⟨schema, hs⟩ := Entries.exists_get?_iff.mpr (hu (Entries.mem_names_of_mem he))
    rw [Entries.contains, hs, Option.isSome_some]
  cases hko : kind.keyOnly mode with
  | true =>
    obtain ⟨hi, rfl⟩ := Kind.keyOnly_eq_true_iff.mp hko
    cases kind with
    | item _ =>
      cases hk
      rw [Kind.parsed_of_keyOnly hko]
      rfl
    | _ => cases hi
  | false =>
    rw [Kind.parsed_of_not_keyOnly hko, all]
    by_cases hm : mode = .key
    · subst hm
      have hi : (Schema.mk props kind).isItem = false := by
        simpa [Kind.keyOnly, Schema.isItem, Schema.kindName, Schema.kind] using hko
      exact Schema.considered_of_not_item hi .key _
    · rw [Schema.considered, if_neg hm]

/-! ## Without filling -/

/-- Where nothing is filled, what contains a value is equal to it. -/
theorem Keeps.equal {mode : Mode} {schema : Schema} {v w : Value}
    (h : Keeps mode false schema v w) (hd : v.DistinctNames) :
    v.equal w = true ∧ w.DistinctNames := by
  induction h with
  | scalar => exact ⟨Value.equal_refl hd, hd⟩
  | set => exact ⟨Value.equal_refl hd, hd⟩
  | @list props elements items others length each ih =>
    rw [Value.distinctNames_list] at hd
    have hz : List.Forall₂ (fun v w => v.equal w = true ∧ w.DistinctNames) items others := by
      refine List.forall₂_iff_zip.mpr ⟨length, fun hp => ?_⟩
      exact ih _ hp (hd _ (List.of_mem_zip hp).1)
    refine ⟨Value.equal_list_iff.mpr ⟨others, rfl, hz.imp fun _ _ h => h.1⟩, ?_⟩
    exact Value.distinctNames_list.mpr (forall₂_right (hz.imp fun _ _ h => h.2))
  | @record props keys elements entries others names each ih =>
    rw [Value.distinctNames_map] at hd
    have hd' : Entries.Distinct others := by
      rw [Entries.Distinct, ← names]
      exact hd.1
    have hn : List.Forall₂ (fun entry other => entry.1 = other.1) entries others :=
      Entries.forall₂_of_names_eq names
    have hv : ∀ pair ∈ entries.zip others,
        pair.1.2.equal pair.2.2 = true ∧ pair.2.2.DistinctNames :=
      fun pair hp => ih pair hp (hd.2 _ (List.of_mem_zip hp).1)
    refine ⟨Value.equal_map_iff.mpr ⟨others, rfl, hn.length_eq, fun entry he => ?_⟩,
      Value.distinctNames_map.mpr ⟨hd', fun other ho => ?_⟩⟩
    · obtain ⟨other, hp⟩ := exists_mem_zip_left hn.length_eq he
      have hw := Entries.get?_of_mem hd' (List.of_mem_zip hp).2
      rw [← List.forall₂_zip hn hp] at hw
      exact ⟨other.2, hw, (hv _ hp).1⟩
    · obtain ⟨entry, hp⟩ := exists_mem_zip_right hn.length_eq ho
      exact (hv _ hp).2
  | @attributes props kind attributes entries others declares distinct declared kept each added
      ih =>
    rw [Value.distinctNames_map] at hd
    have hs : Entries.names others ⊆ Entries.names entries := by
      intro name hn
      by_contra hc
      exact absurd (added name hn hc).1 (by decide)
    have related : ∀ name v w, Entries.get? name entries = some v →
        Entries.get? name others = some w → v.equal w = true ∧ w.DistinctNames := by
      intro name v w hv hw
      obtain ⟨schema, hm⟩ := Entries.mem_names.mp
        (declared (Entries.mem_names_of_mem (Entries.mem_of_get? hv)))
      exact ih name schema hm v w hv hw (hd.2 _ (Entries.mem_of_get? hv))
    refine ⟨Value.equal_map_of_names hd.1 distinct kept hs fun name v w hv hw =>
      (related name v w hv hw).1, Value.distinctNames_map.mpr ⟨distinct, fun other ho => ?_⟩⟩
    obtain ⟨v, hv⟩ := Entries.exists_get?_iff.mpr (hs (Entries.mem_names_of_mem ho))
    exact (related other.1 v other.2 hv (Entries.get?_of_mem distinct ho)).2
  | anyOf _ _ ih => exact ih hd
  | @operation schema operation other inner distinct =>
    exact ⟨Value.equal_op_iff.mpr ⟨other, rfl, inner⟩, distinct⟩

end ItemShape
