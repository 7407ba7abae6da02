import ItemShape.Proofs.Parse.Conforms
import ItemShape.Proofs.Parse.Operations

/-!
# ItemShape.Proofs.Parse.Relaxed

What can be put can be written by an update as well (`update_accepts_put`): update mode requires
less than put mode, and what it accepts in addition are operations, which no put accepts.

The two parses need not be filled with the same tree, as a union may take an earlier member in the
update. But without filling each of them yields a value equal to the input, and the enumerations of
a schema do not tell equal values apart.
-/

namespace ItemShape

theorem Required.relaxed {required : Required} (h : required.isRequired .put = false) :
    required.isRequired .update = false := by
  cases required with
  | atLeastOnce => rfl
  | always => cases h
  | never => rfl

theorem consult_of_ne_operation {extension : Option Extension}
    (hx : extension = none ∨ extension = some Update.extension) (schema : Schema)
    (settings : Settings) {v : Value} (h : ∀ operation, v ≠ .op operation) :
    Extension.consult extension schema settings (some v) = .unextended (some v) := by
  rcases hx with rfl | rfl
  · rfl
  · cases v with
    | op operation => exact absurd rfl (h operation)
    | _ => rfl

/-- Settings of a put and of an update that fill nothing. -/
structure Settings.Relaxes (s s' : Settings) : Prop where
  put : s.mode = .put
  update : s'.mode = .update
  unfilled : s.fill = false
  unfilled' : s'.fill = false

theorem Settings.Relaxes.at {s s' : Settings} (h : s.Relaxes s') (path path' : ValuePath) :
    (s.at path).Relaxes (s'.at path') :=
  ⟨h.put, h.update, h.unfilled, h.unfilled'⟩

/-- What the schema accepts in a put it accepts in an update, wherever it stands. -/
def Schema.AcceptsRelaxed (s s' : Settings) (schema : Schema) : Prop :=
  ∀ extension, extension = none ∨ extension = some Update.extension →
    ∀ path path' scope scope' input filled, (∀ v, input = some v → v.DistinctNames) →
      fillNode schema none (s.at path) scope input = .ok filled →
        ∃ other, fillNode schema extension (s'.at path') scope' input = .ok other

/-! ## Kinds -/

section Kinds

variable {s s' : Settings} {extension : Option Extension} {scope scope' : Option LinkContext}
  {kind : Kind Schema} {transformer : Option Transformer} {v : Value} {filled : Filled}

theorem exists_fillKind_relaxed (hs : s.Relaxes s')
    (hx : extension = none ∨ extension = some Update.extension)
    (each : ∀ schema ∈ kind.children, schema.AcceptsRelaxed s s') (hd : v.DistinctNames)
    (h : fillKind kind transformer none s scope v = .ok filled) :
    ∃ other, fillKind kind transformer extension s' scope' v = .ok other := by
  have child : ∀ schema ∈ kind.children, ∀ path {scope v filled}, v.DistinctNames →
      fillNode schema none (s.at path) scope (some v) = .ok filled →
        ∀ extension, extension = none ∨ extension = some Update.extension → ∀ path' scope',
          ∃ other, fillNode schema extension (s'.at path') scope' (some v) = .ok other := by
    intro schema hm path scope v filled hd hf extension hx path' scope'
    exact each schema hm extension hx path path' scope scope' _ _
      (fun _ hv => by cases hv; exact hd) hf
  have named {attributes : List (String × Schema)} (hk : kind.attributes? = some attributes) :
      ∃ other, fillKind kind transformer extension s' scope' v = .ok other := by
    obtain ⟨input, slots, rfl, -, hu, hslots⟩ := fillKind_attributes_ok hk h
    rw [Value.distinctNames_map] at hd
    rw [Kind.parsed_of_not_keyOnly (by simp [Kind.keyOnly, hs.put])] at hslots
    refine exists_fillKind_attributes hk hu fun entry he path' context' => ?_
    have hm := (Kind.parsed_sublist kind _ attributes).subset he
    obtain ⟨slot, -, hslot⟩ := exists_of_forall₂_left hslots entry hm
    obtain ⟨path, context, hf⟩ := hslot.content
    exact each entry.2 (Kind.mem_children hk hm) extension hx path path' _ _ _ _
      (fun v hv => hd.2 _ (Entries.mem_of_get? hv)) hf
  cases kind with
  | scalar kind =>
    obtain ⟨hm, -⟩ := fillKind_scalar_ok_iff.mp h
    exact ⟨_, fillKind_scalar_ok_iff.mpr ⟨hm, rfl⟩⟩
  | set elements =>
    obtain ⟨members, fs, rfl, -, hu, hfs⟩ := fillKind_set_ok h
    rw [Value.distinctNames_list] at hd
    refine exists_fillKind_set hu fun member hm => ?_
    obtain ⟨f, -, hf⟩ := exists_of_forall₂_left hfs member hm
    exact child elements List.mem_cons_self s.path (hd member hm) hf none (.inl rfl) s'.path scope'
  | list elements =>
    obtain ⟨items, fs, rfl, -, hfs⟩ := fillKind_list_ok h
    rw [Value.distinctNames_list] at hd
    refine exists_fillKind_list fun item hi path' => ?_
    obtain ⟨f, -, path, hf⟩ := exists_of_forall₂_left hfs item hi
    exact child elements List.mem_cons_self path (hd item hi) hf extension hx path' scope'
  | record keys elements =>
    obtain ⟨entries, fs, rfl, -, hfs⟩ := fillKind_record_ok h
    rw [Value.distinctNames_map] at hd
    refine exists_fillKind_record (fun entry he path' => ?_) fun entry he path' => ?_
    · obtain ⟨f, -, -, ⟨path, key, hf⟩, -⟩ := exists_of_forall₂_left hfs entry he
      have distinct : (Value.string entry.1).DistinctNames := trivial
      exact child keys List.mem_cons_self path distinct hf none (.inl rfl) path' none
    · obtain ⟨f, -, -, -, path, hf⟩ := exists_of_forall₂_left hfs entry he
      have hm : elements ∈ (Kind.record keys elements).children := by simp [Kind.children]
      exact child elements hm path (hd.2 entry he) hf extension hx path' scope'
  | anyOf members =>
    obtain ⟨member, hm, hf⟩ := fillFirst_eq_some (fillKind_anyOf_ok_iff.mp h)
    obtain ⟨other, ho⟩ :=
      exists_fillFirst hm (child member hm s.path hd hf extension hx s'.path scope')
    exact ⟨other, fillKind_anyOf_ok_iff.mpr ho⟩
  | map attributes => exact named rfl
  | item attributes => exact named rfl

end Kinds

theorem Schema.acceptsRelaxed {s s' : Settings} (hs : s.Relaxes s') {schema : Schema}
    (wf : schema.WellFormed) (hv : schema.Everywhere fun node => node.validator? .update = none) :
    schema.AcceptsRelaxed s s' := by
  induction schema using Schema.induct with
  | node props kind ih =>
    intro extension hx path path' scope scope' input filled hd h
    have conservative : Conservative extension := conservative_of_extension hx
    have hs : (s.at path).Relaxes (s'.at path') := hs.at path path'
    have absent : ∀ {settings : Settings} {scope}, settings.fill = false →
        resolved props settings scope none = none := fun hfill => by simp [resolved, hfill]
    cases input with
    | none =>
      obtain ⟨optional, -⟩ := (fillNode_absent_ok_iff rfl (absent hs.unfilled)).mp h
      rw [hs.put] at optional
      refine ⟨.absent, (fillNode_absent_ok_iff (conservative.absent _ _) (absent hs.unfilled')).mpr
        ⟨?_, rfl⟩⟩
      rw [hs.update]
      exact Required.relaxed optional
    | some v =>
      have hd : v.DistinctNames := hd v rfl
      have hop : ∀ operation, v ≠ .op operation := by
        rintro operation rfl
        exact fillNode_operation operation filled h
      have hc := consult_of_ne_operation hx (.mk props kind) (s'.at path') hop
      obtain ⟨hk, checked⟩ := fillNode_some_ok_iff.mp h
      have each : ∀ schema ∈ kind.children, schema.AcceptsRelaxed (s.at path) (s'.at path') :=
        fun schema hm => ih schema hm (wf.child hm) (hv.child hm)
      obtain ⟨other, hk'⟩ := exists_fillKind_relaxed hs hx each hd hk
      refine ⟨other, (fillNode_present_ok_iff hc rfl).mpr ⟨hk', ?_⟩⟩
      -- Both parses fill the node with a value equal to `v`, and an update only enumerates.
      obtain ⟨w, hw, he, hdw⟩ := fillNode_equal_of_conservative conservative_none wf hs.unfilled
        (by simp [hs.put]) hd h
      obtain ⟨w', hw', he', -⟩ := fillKind_equal_of_conservative conservative wf hs.unfilled'
        (by simp [hs.update]) hd hk'
      have heq : w.equal w' = true := Value.equal_trans (Value.equal_symm hd hdw he) he'
      refine (checkFilled_ok_iff hw').mpr ⟨fun allowed ha => ?_, fun validator hva => ?_⟩
      · obtain ⟨candidate, hc, same⟩ := ((checkFilled_ok_iff hw).mp checked).enumerated allowed ha
        exact ⟨candidate, hc, Value.same_of_same_of_equal same heq⟩
      · have unvalidated : props.validators.get? .update = none := hv.root
        rw [hs.update, unvalidated] at hva
        cases hva

/-- Options of a mode with its own extension, and without filling. -/
structure ParseOptions.Unfilled (options : ParseOptions) (m : Mode) : Prop where
  mode : options.mode = m
  fill : options.fill = false
  extension : options.extension = m.extension?

/-- Without filling, what is accepted in a put is accepted in an update that has no validators, and
as an equal value. -/
theorem update_accepts_put {schema : Schema} {put update : ParseOptions} {input f : Option Value}
    (hb : schema.Built) (hv : schema.Everywhere fun node => node.validator? .update = none)
    (hp : put.Unfilled .put) (hu : update.Unfilled .update)
    (hd : ∀ v, input = some v → v.DistinctNames) (h : schema.FillsTo put input f) :
    ∃ g, schema.FillsTo update input g ∧ Option.Rel (fun v w => v.equal w = true) f g := by
  obtain ⟨filled, hf, rfl⟩ := Schema.fillsTo_iff.mp h
  rw [hp.extension] at hf
  have relaxes : put.toSettings.Relaxes update.toSettings := ⟨hp.mode, hu.mode, hp.fill, hu.fill⟩
  have hx : update.extension = some Update.extension := hu.extension
  obtain ⟨other, ho⟩ := Schema.acceptsRelaxed relaxes hb.wellFormed hv update.extension (.inr hx)
    put.path update.path none none input filled hd hf
  refine ⟨other.value?, Schema.fillsTo_iff.mpr ⟨other, ho, rfl⟩, ?_⟩
  cases input with
  | none =>
    rw [value_of_absent_unfilled conservative_none hp.fill hf,
      value_of_absent_unfilled (conservative_of_extension (.inr hx)) hu.fill ho]
    exact .none
  | some v =>
    have hd : v.DistinctNames := hd v rfl
    obtain ⟨w, hw, he, hdw⟩ := fillNode_equal_of_conservative conservative_none hb.wellFormed hp.fill
      (by simp [hp.mode]) hd hf
    obtain ⟨w', hw', he', -⟩ := fillNode_equal_of_conservative (conservative_of_extension (.inr hx))
      hb.wellFormed hu.fill (by simp [hu.mode]) hd ho
    rw [hw, hw']
    exact .some (Value.equal_trans (Value.equal_symm hd hdw he) he')

/-- A union of which a put takes the last member and an update the first one. -/
theorem update_accepts_put_other_member :
    let counter := Schema.ofKind (.map [("count", .scalar .number)])
    let schema := (Schema.ofKind (.anyOf [counter, .scalar .any])).validateIn .put
      (fun v => if v.same .null then .invalid none else .valid)
    let put : ParseOptions := { ParseOptions.ofMode .put with fill := false }
    let update : ParseOptions := { ParseOptions.ofMode .update with fill := false }
    schema.FillsTo put (some (.map [])) (some (.map [])) ∧
      ∃ g, schema.FillsTo update (some (.map [])) g ∧
        Option.Rel (fun v w => v.equal w = true) (some (Value.map [])) g := by
  intro counter schema put update
  have built : schema.Built := by
    refine .withProps (.anyOf (fun member hm => ?_)
      (rfl : Schema.anyOf? [counter, .scalar .any] = _)) _
    rcases List.mem_cons.mp hm with rfl | hm
    · refine .map (fun entry he => ?_) (rfl : Schema.map? [("count", .scalar .number)] = _)
      cases List.mem_singleton.mp he
      exact .scalar .number
    · cases List.mem_singleton.mp hm
      exact .scalar .any
  have unvalidated : schema.Everywhere fun node => node.validator? .update = none := by
    refine Schema.everywhere_iff.mpr ⟨rfl, fun member hm => ?_⟩
    rcases List.mem_cons.mp hm with rfl | hm
    · refine Schema.everywhere_iff.mpr ⟨rfl, fun count hc => ?_⟩
      cases List.mem_singleton.mp hc
      exact Schema.everywhere_iff.mpr ⟨rfl, fun child hc => by cases hc⟩
    · cases List.mem_singleton.mp hm
      exact Schema.everywhere_iff.mpr ⟨rfl, fun child hc => by cases hc⟩
  have distinct : ∀ v, some (Value.map []) = some v → v.DistinctNames := by
    intro v hv
    cases hv
    exact Value.distinctNames_map.mpr ⟨by decide, fun entry he => by cases he⟩
  have stored : schema.FillsTo put (some (.map [])) (some (.map [])) := ⟨_, rfl⟩
  refine ⟨stored, ?_⟩
  exact update_accepts_put built unvalidated ⟨rfl, rfl, rfl⟩ ⟨rfl, rfl, rfl⟩ distinct stored

end ItemShape
