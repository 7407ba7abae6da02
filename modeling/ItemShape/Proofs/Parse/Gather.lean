import ItemShape.Proofs.Parse.Agree
import ItemShape.Proofs.Parse.Store

/-!
# ItemShape.Proofs.Parse.Gather

Maps and records are stored alike: each child adds an entry or nothing, and two entries of one name
are an error. `gather` is what the two have in common (`storeSlots_eq_gather`,
`storeEntries_eq_gather`).

* `gather_ok`: the entries are those that were added, under distinct names.
* `gather_agree`: related additions give related entries.
* `gather_perm`: the order of the additions is the order of the entries, and counts for nothing
  else.
-/

namespace ItemShape
namespace Filled

variable {path : ValuePath}

/-- What a child adds: an entry, nothing, or an error. -/
abbrev Addition : Type :=
  Except SchemaError (Option (String × Value))

/-- Entries of one name with related values, or nothing on either side. -/
abbrev Addition.Rel (R : Value → Value → Prop) (a b : Addition) : Prop :=
  Agree (fun _ _ => True)
    (Option.Rel fun entry other => entry.1 = other.1 ∧ R entry.2 other.2) a b

/-- The entries that are added, unless one of them has a name that is taken by then. -/
def gather (path : ValuePath) (taken : List String) :
    List Addition → Except SchemaError (List (String × Value))
  | [] => .ok []
  | .error e :: _ => .error e
  | .ok none :: rest => gather path taken rest
  | .ok (some (name, value)) :: rest =>
    if taken.contains name then .error (.conflict path name)
    else (gather path (name :: taken) rest).map fun entries => (name, value) :: entries

/-- What a slot adds to its map. -/
def slotAddition (path : ValuePath) (slot : Slot Filled) : Addition :=
  (slot.content.store (path.member slot.name)).map fun value => value.map fun t => (slot.stored, t)

/-- What an entry adds to its record. -/
def entryAddition (path : ValuePath) (keys : Option Transformer) (entry : String × Filled) :
    Addition :=
  (entry.2.store (path.member entry.1)).bind fun value => value.elim (.ok none) fun t =>
    (storedKey keys entry.1 (path.member entry.1)).map fun key => some (key, t)

theorem storeSlots_eq_gather (path : ValuePath) (taken : List String)
    (slots : List (Slot Filled)) :
    storeSlots path taken slots = gather path taken (slots.map (slotAddition path)) := by
  induction slots generalizing taken with
  | nil => rfl
  | cons slot rest ih =>
    rw [storeSlots, List.map_cons]
    cases hs : slot.content.store (path.member slot.name) with
    | error e => simp only [slotAddition, hs, Except.map, gather]
    | ok value =>
      cases value with
      | none => simp only [slotAddition, hs, Except.map, Option.map_none, gather, ih]
      | some t =>
        simp only [slotAddition, hs, Except.map, Option.map_some, gather, ih]
        split
        · rfl
        · split <;> simp_all

theorem storeEntries_eq_gather (path : ValuePath) (keys : Option Transformer)
    (taken : List String) (entries : List (String × Filled)) :
    storeEntries path keys taken entries =
      gather path taken (entries.map (entryAddition path keys)) := by
  induction entries generalizing taken with
  | nil => rfl
  | cons entry rest ih =>
    rw [storeEntries, List.map_cons]
    cases hs : entry.2.store (path.member entry.1) with
    | error e => simp only [entryAddition, hs, Except.bind, gather]
    | ok value =>
      cases value with
      | none => simp only [entryAddition, hs, Except.bind, Option.elim, gather, ih]
      | some t =>
        cases hk : storedKey keys entry.1 (path.member entry.1) with
        | error e => simp only [entryAddition, hs, Except.bind, Option.elim, hk, Except.map, gather]
        | ok key =>
          simp only [entryAddition, hs, Except.bind, Option.elim, hk, Except.map, gather, ih]
          split
          · rfl
          · split <;> simp_all

section Gather

variable {taken : List String} {as bs : List Addition}
  {entries : List (String × Value)}

theorem gather_cons_ok_iff {a : Addition} :
    gather path taken (a :: as) = .ok entries ↔
      (a = .ok none ∧ gather path taken as = .ok entries) ∨
      ∃ name value others, a = .ok (some (name, value)) ∧ name ∉ taken ∧
        gather path (name :: taken) as = .ok others ∧ entries = (name, value) :: others := by
  rcases a with e | _ | ⟨name, value⟩
  · simp [gather]
  · simp [gather]
  · rw [gather]
    by_cases htaken : name ∈ taken
    · rw [if_pos (List.contains_iff_mem.mpr htaken)]
      constructor
      · intro h
        cases h
      · rintro (⟨h, -⟩ | ⟨_, _, _, h, hfree, -⟩)
        · cases h
        · cases h
          exact absurd htaken hfree
    · rw [if_neg (mt List.contains_iff_mem.mp htaken)]
      constructor
      · intro h
        cases hr : gather path (name :: taken) as with
        | error e =>
          rw [hr] at h
          cases h
        | ok others =>
          rw [hr] at h
          cases h
          exact .inr ⟨name, value, others, rfl, htaken, hr, rfl⟩
      · rintro (⟨h, -⟩ | ⟨_, _, others, h, -, hr, rfl⟩)
        · cases h
        · cases h
          rw [hr]
          rfl

/-- Every addition succeeds, and what is gathered is what is added, under distinct names. -/
theorem gather_ok (h : gather path taken as = .ok entries) :
    Entries.Distinct entries ∧ (∀ name ∈ Entries.names entries, name ∉ taken) ∧
      (∀ a ∈ as, ∃ added, a = .ok added ∧ ∀ entry, added = some entry → entry ∈ entries) ∧
        ∀ entry ∈ entries, .ok (some entry) ∈ as := by
  induction as generalizing taken entries with
  | nil =>
    cases h
    exact ⟨List.nodup_nil, List.forall_mem_nil _, List.forall_mem_nil _, List.forall_mem_nil _⟩
  | cons a rest ih =>
    rcases gather_cons_ok_iff.mp h with ⟨rfl, hr⟩ | ⟨name, value, others, rfl, hfree, hr, rfl⟩
    · obtain ⟨distinct, fresh, each, added⟩ := ih hr
      refine ⟨distinct, fresh, List.forall_mem_cons.mpr ⟨⟨none, rfl, fun _ hn => ?_⟩, each⟩,
        fun entry hm => List.mem_cons_of_mem _ (added entry hm)⟩
      cases hn
    · obtain ⟨distinct, fresh, each, added⟩ := ih hr
      refine ⟨Entries.distinct_cons.mpr ⟨fun hm => ?_, distinct⟩, fun other hm => ?_,
        List.forall_mem_cons.mpr ⟨⟨_, rfl, fun entry he => ?_⟩, fun a ha => ?_⟩,
        List.forall_mem_cons.mpr ⟨List.mem_cons_self, fun entry hm => ?_⟩⟩
      · exact fresh name hm List.mem_cons_self
      · rcases List.mem_cons.mp hm with rfl | hm
        · exact hfree
        · exact fun ht => fresh other hm (List.mem_cons_of_mem _ ht)
      · cases he
        exact List.mem_cons_self
      · obtain ⟨first, rfl, hfirst⟩ := each a ha
        exact ⟨first, rfl, fun entry he => List.mem_cons_of_mem _ (hfirst entry he)⟩
      · exact List.mem_cons_of_mem _ (added entry hm)

theorem gather_agree {R : Value → Value → Prop} (h : List.Forall₂ (Addition.Rel R) as bs) :
    Agree (fun _ _ => True) (Entries.Rel R) (gather path taken as) (gather path taken bs) := by
  induction h generalizing taken with
  | nil => exact .ok .nil
  | cons hfirst _ ih =>
    cases hfirst with
    | error _ => exact .error trivial
    | ok hadded =>
      cases hadded with
      | none => exact ih
      | @some entry other hentry =>
        obtain ⟨name, v⟩ := entry
        obtain ⟨_, w⟩ := other
        obtain ⟨rfl, hvw⟩ := hentry
        simp only [gather]
        by_cases htaken : taken.contains name = true
        · rw [if_pos htaken, if_pos htaken]
          exact .error trivial
        · rw [if_neg htaken, if_neg htaken]
          obtain ⟨e, e', hf, hg, -⟩ | ⟨xs, ys, hf, hg, hr⟩ := (@ih (name :: taken)).cases
          · rw [hf, hg]
            exact .error trivial
          · rw [hf, hg]
            exact .ok (.cons ⟨rfl, hvw⟩ hr)

theorem gather_taken {taken' : List String} (h : ∀ name, name ∈ taken ↔ name ∈ taken') :
    gather path taken as = gather path taken' as := by
  induction as generalizing taken taken' with
  | nil => rfl
  | cons a rest ih =>
    rcases a with e | _ | ⟨name, value⟩
    · rfl
    · exact ih h
    · have hcontains : taken.contains name = taken'.contains name := by
        rw [Bool.eq_iff_iff, List.contains_iff_mem, List.contains_iff_mem]
        exact h name
      have hrest : gather path (name :: taken) rest = gather path (name :: taken') rest := by
        refine ih fun other => ?_
        rw [List.mem_cons, List.mem_cons, h other]
      rw [gather, gather, hcontains, hrest]

/-- Two additions in either order: neither takes the name of the other. -/
theorem gather_swap (a b : Addition)
    (h : gather path taken (b :: a :: as) = .ok entries) :
    ∃ others, gather path taken (a :: b :: as) = .ok others ∧ entries.Perm others := by
  rcases gather_cons_ok_iff.mp h with ⟨rfl, hr⟩ | ⟨name, v, others, rfl, hfree, hr, rfl⟩
  · rcases gather_cons_ok_iff.mp hr with ⟨rfl, hr'⟩ | ⟨name, v, others, rfl, hfree, hr', rfl⟩
    · exact ⟨entries, h, List.Perm.refl _⟩
    · have hb : gather path (name :: taken) (.ok none :: as) = .ok others := hr'
      exact ⟨_, gather_cons_ok_iff.mpr (.inr ⟨name, v, others, rfl, hfree, hb, rfl⟩),
        List.Perm.refl _⟩
  · rcases gather_cons_ok_iff.mp hr with ⟨rfl, hr'⟩ | ⟨name', v', others, rfl, hfree', hr', rfl⟩
    · have ha : gather path taken (.ok (some (name, v)) :: as) = .ok ((name, v) :: others) :=
        gather_cons_ok_iff.mpr (.inr ⟨name, v, others, rfl, hfree, hr', rfl⟩)
      exact ⟨_, ha, List.Perm.refl _⟩
    · rw [List.mem_cons, not_or] at hfree'
      have hrest : gather path (name :: name' :: taken) as = .ok others := by
        rw [← hr']
        refine gather_taken fun third => ?_
        simp only [List.mem_cons]
        tauto
      have hsecond : gather path (name' :: taken) (.ok (some (name, v)) :: as) =
          .ok ((name, v) :: others) := by
        refine gather_cons_ok_iff.mpr (.inr ⟨name, v, others, rfl, fun hm => ?_, hrest, rfl⟩)
        rcases List.mem_cons.mp hm with rfl | hm
        · exact hfree'.1 rfl
        · exact hfree hm
      exact ⟨_, gather_cons_ok_iff.mpr (.inr ⟨name', v', _, rfl, hfree'.2, hsecond, rfl⟩),
        List.Perm.swap _ _ _⟩

theorem gather_perm_ok (hp : as.Perm bs) (h : gather path taken as = .ok entries) :
    ∃ others, gather path taken bs = .ok others ∧ entries.Perm others := by
  induction hp generalizing taken entries with
  | nil => exact ⟨entries, h, List.Perm.refl _⟩
  | cons a _ ih =>
    rcases gather_cons_ok_iff.mp h with ⟨rfl, hr⟩ | ⟨name, v, others, rfl, hfree, hr, rfl⟩
    · exact ih hr
    · obtain ⟨others', h', hp⟩ := ih hr
      exact ⟨_, gather_cons_ok_iff.mpr (.inr ⟨name, v, others', rfl, hfree, h', rfl⟩), hp.cons _⟩
  | swap a b rest => exact gather_swap a b h
  | trans _ _ ih ih' =>
    obtain ⟨between, h, hp⟩ := ih h
    obtain ⟨others, h, hp'⟩ := ih' h
    exact ⟨others, h, hp.trans hp'⟩

theorem gather_perm (hp : as.Perm bs) :
    Agree (fun _ _ => True) List.Perm (gather path taken as) (gather path taken bs) := by
  refine Agree.of_ok (fun _ h => gather_perm_ok hp h) fun _ h => ?_
  obtain ⟨entries, h, -⟩ := gather_perm_ok hp.symm h
  exact ⟨entries, h⟩

end Gather

/-! ## Maps and records -/

theorem storeSlots_ok {taken : List String} {slots : List (Slot Filled)}
    {entries : List (String × Value)} (h : storeSlots path taken slots = .ok entries) :
    Entries.Distinct entries ∧ ∀ slot ∈ slots, ∃ stored,
      slot.content.store (path.member slot.name) = .ok stored ∧
        ∀ t, stored = some t → (slot.stored, t) ∈ entries := by
  rw [storeSlots_eq_gather] at h
  obtain ⟨distinct, -, each, -⟩ := gather_ok h
  refine ⟨distinct, fun slot hs => ?_⟩
  obtain ⟨added, ha, hadded⟩ := each _ (List.mem_map_of_mem hs)
  rw [slotAddition] at ha
  cases hstore : slot.content.store (path.member slot.name) with
  | error e =>
    rw [hstore] at ha
    cases ha
  | ok stored =>
    rw [hstore] at ha
    cases ha
    refine ⟨stored, rfl, fun t ht => hadded _ ?_⟩
    rw [ht]
    rfl

theorem exists_slot_of_mem_stored {taken : List String} {slots : List (Slot Filled)}
    {entries : List (String × Value)} (h : storeSlots path taken slots = .ok entries)
    {entry : String × Value} (hm : entry ∈ entries) :
    ∃ slot ∈ slots, slot.content.store (path.member slot.name) = .ok (some entry.2) := by
  rw [storeSlots_eq_gather] at h
  obtain ⟨-, -, -, added⟩ := gather_ok h
  obtain ⟨slot, hs, ha⟩ := List.mem_map.mp (added entry hm)
  refine ⟨slot, hs, ?_⟩
  rw [slotAddition] at ha
  rcases hstore : slot.content.store (path.member slot.name) with e | _ | t
  · rw [hstore] at ha
    cases ha
  · rw [hstore] at ha
    cases ha
  · rw [hstore] at ha
    cases ha
    rfl

theorem exists_entry_of_mem_stored {keys : Option Transformer} {taken : List String}
    {fs : List (String × Filled)} {entries : List (String × Value)}
    (h : storeEntries path keys taken fs = .ok entries) {entry : String × Value}
    (hm : entry ∈ entries) : ∃ f ∈ fs, f.2.store (path.member f.1) = .ok (some entry.2) := by
  rw [storeEntries_eq_gather] at h
  obtain ⟨-, -, -, added⟩ := gather_ok h
  obtain ⟨f, hf, ha⟩ := List.mem_map.mp (added entry hm)
  refine ⟨f, hf, ?_⟩
  rw [entryAddition] at ha
  rcases hstore : f.2.store (path.member f.1) with e | _ | t
  · rw [hstore] at ha
    cases ha
  · rw [hstore] at ha
    cases ha
  · rw [hstore] at ha
    simp only [Except.bind, Option.elim] at ha
    cases hk : storedKey keys f.1 (path.member f.1) with
    | error e =>
      rw [hk] at ha
      cases ha
    | ok key =>
      rw [hk] at ha
      cases ha
      rfl

end Filled
end ItemShape
