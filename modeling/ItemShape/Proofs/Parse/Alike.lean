import ItemShape.Proofs.Parse.Conforms
import ItemShape.Proofs.Parse.Filled
import ItemShape.Proofs.Parse.Gather
import ItemShape.Proofs.Value.Alike

/-!
# ItemShape.Proofs.Parse.Alike

Two parses of alike inputs. Maps are walked in declaration order, so only records see the order of
the keys they are given; each entry is filled and stored on its own, so they keep that order and
nothing depends on it.

* `Parser.Alike`: parsers that take alike steps (`Alike.outcomes`).
* `Filled.Alike`: trees that yield alike values in both steps; alike children make alike trees.
-/

namespace ItemShape

/-! ## Outcomes and parsers -/

/-- Both steps fail, or both succeed: with alike values, or both without one. -/
abbrev Outcome.Alike (outcome other : Outcome) : Prop :=
  Agree (fun _ _ => True) (Option.Rel Value.Alike) outcome other

structure Parser.Alike (parser other : Parser) : Prop where
  phase : parser.phase = other.phase
  transform : parser.transform = other.transform
  filled : Outcome.Alike parser.filled other.filled
  stored : Outcome.Alike parser.stored other.stored

namespace Parser

theorem alike_new (transform : Bool) {filled filled' stored stored' : Outcome}
    (hf : Outcome.Alike filled filled') (hs : Outcome.Alike stored stored') :
    (new transform filled stored).Alike (new transform filled' stored') :=
  ⟨rfl, rfl, hf, hs⟩

/-- Alike parsers take alike steps, and are alike afterwards. -/
theorem Alike.next {parser other : Parser} (h : parser.Alike other) :
    Option.Rel Outcome.Alike parser.next.1 other.next.1 ∧ parser.next.2.Alike other.next.2 := by
  obtain ⟨phase, transform, filled, stored⟩ := parser
  obtain ⟨phase', transform', filled', stored'⟩ := other
  obtain ⟨hphase, htransform, hfilled, hstored⟩ := h
  dsimp only at hphase htransform hfilled hstored
  subst hphase htransform
  cases phase with
  | exhausted => exact ⟨.none, rfl, rfl, hfilled, hstored⟩
  | transform => exact ⟨.some hstored, rfl, rfl, hfilled, hstored⟩
  | fill =>
    cases hfilled with
    | error he => exact ⟨.some (.error he), rfl, rfl, .error he, hstored⟩
    | ok hv => exact ⟨.some (.ok hv), rfl, rfl, .ok hv, hstored⟩

theorem Alike.first {parser other : Parser} (h : parser.Alike other) :
    Outcome.Alike (parser.next.1.getD (.ok none)) (other.next.1.getD (.ok none)) := by
  have hstep := h.next.1
  generalize parser.next.1 = step at hstep ⊢
  generalize other.next.1 = step' at hstep ⊢
  cases hstep with
  | none => exact .ok .none
  | some h => exact h

theorem Alike.take {parser other : Parser} (h : parser.Alike other) (count : Nat) :
    List.Forall₂ Outcome.Alike ((take count parser).map Prod.fst)
      ((take count other).map Prod.fst) := by
  induction count generalizing parser other with
  | zero => exact .nil
  | succ count ih =>
    obtain ⟨hstep, hrest⟩ := h.next
    simp only [Parser.take]
    generalize parser.next = step at hstep hrest ⊢
    generalize other.next = step' at hstep hrest ⊢
    obtain ⟨outcome, rest⟩ := step
    obtain ⟨outcome', rest'⟩ := step'
    dsimp only at hstep hrest
    cases hstep with
    | none => exact .nil
    | some h => exact .cons h (ih hrest)

/-- All the steps of alike parsers. -/
theorem Alike.outcomes {parser other : Parser} (h : parser.Alike other) :
    List.Forall₂ Outcome.Alike parser.outcomes other.outcomes := by
  have hremaining : parser.remaining = other.remaining := by simp only [remaining, h.phase]
  rw [Parser.outcomes, Parser.outcomes, trace, trace, hremaining]
  exact h.take _

end Parser

/-! ## Trees -/

/-- Alike values are filled in, and alike values stored. -/
structure Filled.Alike (f g : Filled) : Prop where
  value : Option.Rel Value.Alike f.value? g.value?
  store : ∀ path, Outcome.Alike (f.store path) (g.store path)

namespace Filled

theorem alike_absent : Alike .absent .absent where
  value := .none
  store _ := .ok .none

theorem alike_scalar {transformer : Option Transformer} {v w : Value} (h : v.Alike w)
    (encoded : ∀ other, transformer = some other → (other.encode v).Alike (other.encode w)) :
    Alike (.scalar transformer v) (.scalar transformer w) where
  value := .some h
  store _ := by
    cases transformer with
    | none => exact .ok (.some h)
    | some other => exact .ok (.some (encoded other rfl))

/-- A tree that an extension parses. -/
theorem alike_extended {v w : Option Value} {parser other : Parser}
    (h : Option.Rel Value.Alike v w) (hp : parser.Alike other) :
    Alike (.extended v parser) (.extended w other) where
  value := h
  store _ := by
    have hstep := hp.next.1
    simp only [Filled.store]
    generalize parser.next = step at hstep ⊢
    generalize other.next = step' at hstep ⊢
    obtain ⟨outcome, rest⟩ := step
    obtain ⟨outcome', rest'⟩ := step'
    dsimp only at hstep
    cases hstep with
    | none => exact .ok h
    | some hs => exact hs

section Children

variable {fs gs : List Filled}

/-- The values of one child and of the others. -/
theorem toList_append_alike {v w : Option Value} {vs ws : List Value}
    (h : Option.Rel Value.Alike v w) (hs : List.Forall₂ Value.Alike vs ws) :
    List.Forall₂ Value.Alike (v.toList ++ vs) (w.toList ++ ws) := by
  cases h with
  | none => exact hs
  | some h => exact .cons h hs

theorem storeItems_alike (h : List.Forall₂ Alike fs gs) (path : ValuePath) (position : Nat) :
    Agree (fun _ _ => True) (List.Forall₂ Value.Alike) (storeItems path position fs)
      (storeItems path position gs) := by
  induction h generalizing position with
  | nil => exact .ok .nil
  | @cons f g fs gs hfirst _ ih =>
    rw [storeItems_cons, storeItems_cons]
    exact (hfirst.store _).bind fun _ _ hvw =>
      (ih (position + 1)).map fun _ _ hs => toList_append_alike hvw hs

theorem storeMembers_alike (h : List.Forall₂ Alike fs gs) (path : ValuePath) :
    Agree (fun _ _ => True) (List.Forall₂ Value.Alike) (storeMembers path fs)
      (storeMembers path gs) := by
  induction h with
  | nil => exact .ok .nil
  | @cons f g fs gs hfirst _ ih =>
    rw [storeMembers_cons, storeMembers_cons]
    exact (hfirst.store path).bind fun _ _ hvw => ih.map fun _ _ hs => toList_append_alike hvw hs

theorem alike_list (h : List.Forall₂ Alike fs gs) : Alike (.list fs) (.list gs) where
  value := .some (Value.alike_list_iff.mpr ⟨_, rfl, itemValues_rel (fun _ _ h => h.value) h⟩)
  store path := by
    rw [store_list, store_list]
    exact (storeItems_alike h path 0).map fun _ ws hs =>
      .some (Value.alike_list_iff.mpr ⟨ws, rfl, hs⟩)

theorem alike_set (h : List.Forall₂ Alike fs gs) : Alike (.set fs) (.set gs) where
  value := .some (Value.alike_list_iff.mpr ⟨_, rfl, itemValues_rel (fun _ _ h => h.value) h⟩)
  store path := by
    rw [store_set, store_set]
    exact (storeMembers_alike h path).map fun _ ws hs =>
      .some (Value.alike_list_iff.mpr ⟨ws, rfl, hs⟩)

end Children

section Entries

/-- What alike slots add to their maps. -/
theorem slotAddition_alike {slot other : Slot Filled} (h : Slot.Rel Alike slot other)
    (path : ValuePath) :
    Addition.Rel Value.Alike (slotAddition path slot) (slotAddition path other) := by
  rw [slotAddition, slotAddition, h.name, h.stored]
  refine (h.content.store (path.member other.name)).map fun v w hvw => ?_
  cases hvw with
  | none => exact .none
  | some hvw => exact .some ⟨rfl, hvw⟩

/-- What alike entries of one name add to their records. -/
theorem entryAddition_alike {keys : Option Transformer} {f g : String × Filled}
    (h : f.1 = g.1 ∧ f.2.Alike g.2) (path : ValuePath) :
    Addition.Rel Value.Alike (entryAddition path keys f) (entryAddition path keys g) := by
  rw [entryAddition, entryAddition, h.1]
  refine (h.2.store (path.member g.1)).bind fun v w hvw => ?_
  cases hvw with
  | none => exact .ok .none
  | some hvw =>
    rw [Option.elim, Option.elim]
    cases storedKey keys g.1 (path.member g.1) with
    | error e => exact .error trivial
    | ok key => exact .ok (.some ⟨rfl, hvw⟩)

theorem alike_map {slots others : List (Slot Filled)}
    (h : List.Forall₂ (Slot.Rel Alike) slots others) (distinct : (slots.map Slot.name).Nodup) :
    Alike (.map slots) (.map others) where
  value := by
    have hd : Entries.Distinct (slotValues slots) := (names_slotValues slots).nodup distinct
    have hrel : Entries.Rel Value.Alike (slotValues slots) (slotValues others) :=
      slotValues_rel (fun _ _ h => h.value) h
    exact .some (Value.alike_map_iff.mpr ⟨_, rfl, hd, hrel.matches⟩)
  store path := by
    have hadd : List.Forall₂ (Addition.Rel Value.Alike)
        (slots.map (slotAddition path)) (others.map (slotAddition path)) := by
      rw [List.forall₂_map_left_iff, List.forall₂_map_right_iff]
      exact h.imp fun _ _ h => slotAddition_alike h path
    rw [store_map, store_map, storeSlots_eq_gather, storeSlots_eq_gather]
    obtain ⟨e, e', hf, hg, -⟩ | ⟨xs, ys, hf, hg, hr⟩ := (gather_agree hadd).cases
    · rw [hf, hg]
      exact .error trivial
    · rw [hf, hg]
      exact .ok (.some (Value.alike_map_iff.mpr ⟨ys, rfl, (gather_ok hf).1, hr.matches⟩))

/-- Records of the same keys, in whatever order. -/
theorem alike_record {keys : Option Transformer} {fs gs : List (String × Filled)}
    (h : Entries.Matches Alike fs gs) (distinct : Entries.Distinct fs) :
    Alike (.record keys fs) (.record keys gs) where
  value := by
    obtain ⟨aligned, hrel, hperm⟩ := h
    have hd : Entries.Distinct (entryValues fs) := (names_entryValues fs).nodup distinct
    have hvalues : (entryValues aligned).Perm (entryValues gs) := by
      rw [entryValues_eq_filterMap, entryValues_eq_filterMap]
      exact hperm.filterMap _
    exact .some (Value.alike_map_iff.mpr
      ⟨_, rfl, hd, entryValues aligned, entryValues_rel (fun _ _ h => h.value) hrel, hvalues⟩)
  store path := by
    obtain ⟨aligned, hrel, hperm⟩ := h
    have hadd : List.Forall₂ (Addition.Rel Value.Alike)
        (fs.map (entryAddition path keys)) (aligned.map (entryAddition path keys)) := by
      rw [List.forall₂_map_left_iff, List.forall₂_map_right_iff]
      exact hrel.imp fun _ _ h => entryAddition_alike h path
    have hgather : Agree (fun _ _ => True) (Entries.Matches Value.Alike)
        (gather path [] (fs.map (entryAddition path keys)))
        (gather path [] (gs.map (entryAddition path keys))) :=
      (gather_agree hadd).trans_perm (gather_perm (hperm.map _))
    simp only [Filled.store, storeEntries_eq_gather]
    obtain ⟨e, e', hf, hg, -⟩ | ⟨xs, ys, hf, hg, hm⟩ := hgather.cases
    · rw [hf, hg]
      exact .error trivial
    · rw [hf, hg]
      exact .ok (.some (Value.alike_map_iff.mpr ⟨ys, rfl, (gather_ok hf).1, hm⟩))

end Entries

end Filled
end ItemShape
