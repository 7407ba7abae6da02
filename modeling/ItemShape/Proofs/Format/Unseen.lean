import ItemShape.Proofs.Format.Children
import ItemShape.Proofs.Format.Shown

/-!
# ItemShape.Proofs.Format.Unseen

What formatting does not see: stored data of hidden attributes and stored names that the schema
does not declare (`format_unseen`).

* `Schema.StoredAlike`: stored values that differ, at any depth, in such data only. They are
  formatted alike, errors included (`formatNode_storedAlike`).
* `Schema.Shows`: values in which every map or item has the names of shown attributes only, in
  declaration order. Formatting gives no others (`formatNode_shows`).
-/

namespace ItemShape

/-! ## Stored values -/

mutual

/-- Two stored values that agree on everything the schema shows. -/
def Schema.StoredAlike : Schema → Value → Value → Prop
  | .mk _ kind, v, w => kind.StoredAlike v w

def Kind.StoredAlike : Kind Schema → Value → Value → Prop
  | .scalar _, v, w => v = w
  | .list elements, v, w | .set elements, v, w =>
    v = w ∨ ∃ vs ws, v = .list vs ∧ w = .list ws ∧
      List.Forall₂ (fun v w => elements.StoredAlike v w) vs ws
  | .record _ elements, v, w =>
    v = w ∨ ∃ vs ws, v = .map vs ∧ w = .map ws ∧
      Entries.Rel (fun v w => elements.StoredAlike v w) vs ws
  | .map attributes, v, w | .item attributes, v, w =>
    v = w ∨ ∃ vs ws, v = .map vs ∧ w = .map ws ∧ attributesStoredAlike attributes vs ws
  | .anyOf members, v, w => membersStoredAlike members v w

/-- Every shown attribute is stored on both sides, with values alike, or on neither. -/
def attributesStoredAlike : List (String × Schema) → List (String × Value) →
    List (String × Value) → Prop
  | [], _, _ => True
  | (name, schema) :: rest, vs, ws =>
    (schema.isHidden = false →
        Option.Rel (fun v w => schema.StoredAlike v w)
          (Entries.get? (schema.storedName name) vs) (Entries.get? (schema.storedName name) ws)) ∧
      attributesStoredAlike rest vs ws

/-- The values are alike under every member of the union. -/
def membersStoredAlike : List Schema → Value → Value → Prop
  | [], _, _ => True
  | member :: rest, v, w => member.StoredAlike v w ∧ membersStoredAlike rest v w

end

theorem attributesStoredAlike_iff {attributes : List (String × Schema)}
    {vs ws : List (String × Value)} : attributesStoredAlike attributes vs ws ↔
      ∀ entry ∈ attributes, entry.2.isHidden = false →
        Option.Rel entry.2.StoredAlike (Entries.get? (entry.2.storedName entry.1) vs)
          (Entries.get? (entry.2.storedName entry.1) ws) := by
  induction attributes with
  | nil => simp [attributesStoredAlike]
  | cons entry rest ih => rw [attributesStoredAlike, ih, List.forall_mem_cons]

theorem membersStoredAlike_iff {members : List Schema} {v w : Value} :
    membersStoredAlike members v w ↔ ∀ member ∈ members, member.StoredAlike v w := by
  induction members with
  | nil => simp [membersStoredAlike]
  | cons member rest ih => rw [membersStoredAlike, ih, List.forall_mem_cons]

/-- A union of no members would not tell values of different types apart. -/
theorem Schema.StoredAlike.typeName_eq {schema : Schema} (hw : schema.WellFormed) {v w : Value}
    (h : schema.StoredAlike v w) : v.typeName = w.typeName := by
  induction schema using Schema.induct with
  | node props kind ih =>
    rw [Schema.StoredAlike] at h
    cases kind with
    | scalar kind =>
      cases h
      rfl
    | anyOf members =>
      obtain ⟨member, hm⟩ := List.exists_mem_of_ne_nil _ hw.root.1
      exact ih member hm (hw.child hm) (membersStoredAlike_iff.mp h member hm)
    | _ =>
      rcases h with rfl | ⟨_, _, rfl, rfl, _⟩
      · rfl
      · rfl

/-! ## Two runs -/

section Congruence

variable {path : ValuePath}

theorem formatFirst_congr {members : List Schema} {v w : Value}
    (h : ∀ member ∈ members, formatNode member path v = formatNode member path w) :
    formatFirst members path v = formatFirst members path w := by
  induction members with
  | nil => rfl
  | cons member rest ih =>
    rw [List.forall_mem_cons] at h
    rw [formatFirst, formatFirst, h.1, ih h.2]

theorem formatAttributes_congr {attributes : List (String × Schema)}
    {vs ws : List (String × Value)}
    (h : ∀ entry ∈ attributes, entry.2.isHidden = false →
      Option.Rel (fun v w => ∀ place, formatNode entry.2 place v = formatNode entry.2 place w)
        (Entries.get? (entry.2.storedName entry.1) vs)
        (Entries.get? (entry.2.storedName entry.1) ws)) :
    formatAttributes attributes path vs = formatAttributes attributes path ws := by
  induction attributes with
  | nil => rfl
  | cons entry rest ih =>
    obtain ⟨name, schema⟩ := entry
    rw [List.forall_mem_cons] at h
    obtain ⟨hfirst, hrest⟩ := h
    have ih := ih hrest
    rw [formatAttributes, formatAttributes, ih]
    cases hidden : schema.isHidden with
    | true => rfl
    | false =>
      have held := hfirst hidden
      dsimp only at held
      generalize Entries.get? (schema.storedName name) vs = stored at held ⊢
      generalize Entries.get? (schema.storedName name) ws = stored' at held ⊢
      cases held with
      | none => rfl
      | some hv => simp only [hv]

end Congruence

theorem formatNode_storedAlike {schema : Schema} (hw : schema.WellFormed) {v w : Value}
    (h : schema.StoredAlike v w) (path : ValuePath) :
    formatNode schema path v = formatNode schema path w := by
  induction schema using Schema.induct generalizing v w path with
  | node props kind ih =>
    have htype := h.typeName_eq hw
    have each : ∀ child ∈ kind.children, ∀ v w, child.StoredAlike v w →
        ∀ place, formatNode child place v = formatNode child place w :=
      fun child hc v w h place => ih child hc (hw.child hc) h place
    rw [Schema.StoredAlike] at h
    rw [formatNode, formatNode]
    cases kind with
    | scalar kind =>
      cases h
      rfl
    | list elements =>
      rcases h with rfl | ⟨vs, ws, rfl, rfl, h⟩
      · rfl
      · have items := h.imp (each elements List.mem_cons_self)
        simp only [formatKind, formatItems_congr items]
    | set elements =>
      rcases h with rfl | ⟨vs, ws, rfl, rfl, h⟩
      · rfl
      · have members : List.Forall₂ (fun v w => ∀ _ : ValuePath,
            formatNode elements path v = formatNode elements path w) vs ws :=
          h.imp fun v w h _ => each elements List.mem_cons_self v w h path
        simp only [formatKind, formatMembers_eq_formatItems _ path _ 0, formatItems_congr members]
    | record keys elements =>
      rcases h with rfl | ⟨vs, ws, rfl, rfl, h⟩
      · rfl
      · have entries : Entries.Rel
            (fun v w => ∀ place, formatNode elements place v = formatNode elements place w) vs ws :=
          h.imp fun _ _ h => ⟨h.1, each elements (by simp [Kind.children]) _ _ h.2⟩
        simp only [formatKind, formatEntries_congr entries]
    | anyOf members =>
      have first : formatFirst members path v = formatFirst members path w :=
        formatFirst_congr fun member hm =>
          each member hm v w (membersStoredAlike_iff.mp h member hm) path
      simp only [formatKind, first, htype]
    | map attributes | item attributes =>
      rcases h with rfl | ⟨vs, ws, rfl, rfl, h⟩
      · rfl
      · have shown : formatAttributes attributes path vs = formatAttributes attributes path ws := by
          refine formatAttributes_congr fun entry he hs => ?_
          have held := attributesStoredAlike_iff.mp h entry he hs
          generalize Entries.get? (entry.2.storedName entry.1) vs = stored at held ⊢
          generalize Entries.get? (entry.2.storedName entry.1) ws = stored' at held ⊢
          cases held with
          | none => exact .none
          | some hv => exact .some (each entry.2 (List.mem_map_of_mem he) _ _ hv)
        simp only [formatKind, shown]

/-! ## One run -/

/-- Every map or item in the value has names of shown attributes only, in declaration order. -/
inductive Schema.Shows : Schema → Value → Prop where
  | scalar {props : Props} {kind : ScalarKind} (v : Value) : Shows (.mk props (.scalar kind)) v
  | set {props : Props} {elements : Schema} {members : List Value}
    (each : ∀ member ∈ members, Shows elements member) :
    Shows (.mk props (.set elements)) (.list members)
  | list {props : Props} {elements : Schema} {items : List Value}
    (each : ∀ item ∈ items, Shows elements item) :
    Shows (.mk props (.list elements)) (.list items)
  | record {props : Props} {keys elements : Schema} {entries : List (String × Value)}
    (each : ∀ entry ∈ entries, Shows elements entry.2) :
    Shows (.mk props (.record keys elements)) (.map entries)
  | anyOf {props : Props} {members : List Schema} {member : Schema} {v : Value}
    (hm : member ∈ members) (h : Shows member v) : Shows (.mk props (.anyOf members)) v
  /-- Maps and items. -/
  | attributes {props : Props} {kind : Kind Schema} {attributes : List (String × Schema)}
    {entries : List (String × Value)} (declares : kind.attributes? = some attributes)
    (shown : (Entries.names entries).Sublist
      (Entries.names (attributes.filter fun entry => !entry.2.isHidden)))
    (each : ∀ entry ∈ entries, ∀ schema, (entry.1, schema) ∈ attributes → Shows schema entry.2) :
    Shows (.mk props kind) (.map entries)

section Soundness

variable {path : ValuePath}

/-- The entries are those of some shown attributes, in declaration order. -/
theorem formatAttributes_ok_forall₂ {attributes : List (String × Schema)}
    {stored formatted : List (String × Value)}
    (h : formatAttributes attributes path stored = .ok formatted) :
    ∃ shown, shown.Sublist (attributes.filter fun entry => !entry.2.isHidden) ∧
      List.Forall₂ (fun declared entry => declared.1 = entry.1 ∧
        ∃ held, formatNode declared.2 (path.member declared.1) held = .ok entry.2)
        shown formatted := by
  induction attributes generalizing formatted with
  | nil =>
    cases h
    exact ⟨[], .slnil, .nil⟩
  | cons declared rest ih =>
    obtain ⟨name, schema⟩ := declared
    rw [formatAttributes] at h
    cases hidden : schema.isHidden with
    | true =>
      rw [List.filter_cons_of_neg (by simp [hidden])]
      exact ih (by simpa [hidden] using h)
    | false =>
      rw [List.filter_cons_of_pos (by simp [hidden])]
      simp only [hidden, Bool.false_eq_true, if_false] at h
      split at h
      · obtain ⟨shown, hsub, hs⟩ := ih h
        exact ⟨shown, hsub.cons _, hs⟩
      · rename_i held _
        split at h
        · cases h
        · rename_i w hw
          split at h
          · cases h
          · rename_i others ho
            cases h
            obtain ⟨shown, hsub, hs⟩ := ih ho
            exact ⟨_, hsub.cons_cons (name, schema), .cons ⟨rfl, held, hw⟩ hs⟩

theorem exists_of_formatFirst {members : List Schema} {v w : Value}
    (h : formatFirst members path v = some w) :
    ∃ member ∈ members, formatNode member path v = .ok w := by
  induction members with
  | nil => cases h
  | cons member rest ih =>
    rw [formatFirst] at h
    split at h
    · rename_i hw
      cases h
      exact ⟨member, List.mem_cons_self, hw⟩
    · obtain ⟨other, ho, hw⟩ := ih h
      exact ⟨other, List.mem_cons_of_mem _ ho, hw⟩

end Soundness

theorem formatNode_shows {schema : Schema} (hw : schema.WellFormed) {path : ValuePath}
    {v w : Value} (h : formatNode schema path v = .ok w) : schema.Shows w := by
  induction schema using Schema.induct generalizing path v w with
  | node props kind ih =>
    have each : ∀ child ∈ kind.children, ∀ place v w, formatNode child place v = .ok w →
        child.Shows w := fun child hc place v w h => ih child hc (hw.child hc) h
    rw [formatNode] at h
    cases kind with
    | scalar kind => exact .scalar w
    | list elements =>
      cases v <;> simp only [formatKind, reduceCtorEq] at h
      split at h
      · cases h
      · rename_i values hv
        cases h
        exact .list (formatItems_forall (each elements List.mem_cons_self) hv)
    | set elements =>
      cases v <;> simp only [formatKind, reduceCtorEq] at h
      split at h
      · cases h
      · rename_i values hv
        cases h
        rw [formatMembers_eq_formatItems _ path _ 0] at hv
        exact .set (formatItems_forall (fun _ => each elements List.mem_cons_self path) hv)
    | record keys elements =>
      cases v <;> simp only [formatKind, reduceCtorEq] at h
      split at h
      · cases h
      · rename_i formatted hf
        cases h
        have element := each elements (List.mem_cons_of_mem _ List.mem_cons_self)
        exact .record (formatEntries_forall element (List.forall_mem_nil _) hf)
    | anyOf members =>
      simp only [formatKind] at h
      split at h
      · rename_i first hf
        cases h
        obtain ⟨member, hm, hv⟩ := exists_of_formatFirst hf
        exact .anyOf hm (each member hm path v w hv)
      · cases h
    | map attributes | item attributes =>
      cases v <;> simp only [formatKind, reduceCtorEq] at h
      split at h
      · cases h
      · rename_i formatted hf
        cases h
        obtain ⟨shown, hsub, hs⟩ := formatAttributes_ok_forall₂ hf
        refine .attributes rfl ?_ fun entry he schema hm => ?_
        · have hnames : Entries.names shown = Entries.names formatted :=
            map_eq_map_iff.mpr (hs.imp fun _ _ h => h.1)
          rw [← hnames]
          exact hsub.map Prod.fst
        · obtain ⟨declared, ha, hname, held, hv⟩ := exists_of_forall₂_right hs entry he
          have ha := (List.filter_sublist.subset (hsub.subset ha) : declared ∈ attributes)
          have hschema : declared.2 = schema := by
            have hget := Entries.get?_of_mem hw.root.1 hm
            rw [← hname, Entries.get?_of_mem hw.root.1 ha] at hget
            exact Option.some.inj hget
          rw [hschema] at hv
          exact each schema (List.mem_map_of_mem hm) _ _ _ hv

/-! ## Formatting -/

/-- Stored values that agree on what the schema shows are formatted to one result, value or error,
and a formatted value has nothing but shown attributes, in declaration order. -/
theorem format_unseen {schema : Schema} (hb : schema.Built) :
    (∀ v w, schema.StoredAlike v w → schema.format v = schema.format w) ∧
      ∀ v out, schema.format v = .ok out → schema.Shows out :=
  ⟨fun _ _ h => formatNode_storedAlike hb.wellFormed h .root,
    fun _ _ h => formatNode_shows hb.wellFormed h⟩

/-- Inside a list, a draft kept beside a text, and a member that is not declared. -/
theorem format_unseen_draft_beside_text :
    let text := (Schema.scalar .string).savedAs "t"
    let draft := ((Schema.scalar .string).savedAs "d").hide
    let schema := Schema.ofKind (.list (.ofKind (.map [("text", text), ("draft", draft)])))
    let v := Value.list [.map [("d", .null), ("t", .string "a"), ("old", .bool true)]]
    let w := Value.list [.map [("t", .string "a")]]
    schema.format v = schema.format w ∧ schema.Shows (.list [.map [("text", .string "a")]]) := by
  intro text draft schema v w
  have built : schema.Built := by
    refine .list (.map (fun entry he => ?_)
      (rfl : Schema.map? [("text", text), ("draft", draft)] = _)) rfl
    rcases List.mem_cons.mp he with rfl | he
    · exact .withProps (.scalar .string) fun props => { props with savedAs := some "t" }
    · cases List.mem_singleton.mp he
      exact .withProps (.scalar .string) fun props =>
        { props with savedAs := some "d", hidden := true }
  have alike : schema.StoredAlike v w := by
    refine .inr ⟨_, _, rfl, rfl, .cons (.inr ⟨_, _, rfl, rfl, ?_, ?_, trivial⟩) .nil⟩
    · exact fun _ => .some rfl
    intro hidden
    cases hidden
  have formats : schema.format w = .ok (.list [.map [("text", .string "a")]]) := rfl
  exact ⟨(format_unseen built).1 v w alike, (format_unseen built).2 w _ formats⟩

end ItemShape
