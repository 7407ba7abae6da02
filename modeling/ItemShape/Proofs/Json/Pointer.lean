import ItemShape.Json.Pointer
import Mathlib.Data.List.Basic

/-!
# ItemShape.Proofs.Json.Pointer

Pointers are unambiguous: a token can be read back from its escaped form (`unescape_escape`), and a
pointer determines what it was extended from and by which token (`child_inj`).
-/

namespace ItemShape
namespace Pointer

/-! ## Tokens -/

def unescapeChars : List Char → List Char
  | [] => []
  | [c] => [c]
  | c :: d :: rest =>
    if c = '~' ∧ d = '0' then '~' :: unescapeChars rest
    else if c = '~' ∧ d = '1' then '/' :: unescapeChars rest
    else c :: unescapeChars (d :: rest)

/-- The token that an escaped token stands for. -/
def unescape (text : String) : String :=
  String.ofList (unescapeChars text.toList)

theorem unescapeChars_escapeChar (c : Char) (rest : List Char) :
    unescapeChars (escapeChar c ++ rest) = c :: unescapeChars rest := by
  by_cases htilde : c = '~'
  · subst htilde
    rfl
  · by_cases hslash : c = '/'
    · subst hslash
      rfl
    · rw [escapeChar, if_neg htilde, if_neg hslash]
      cases rest with
      | nil => rfl
      | cons d rest => simp [unescapeChars, htilde]

theorem unescape_escape (token : String) : unescape (escape token) = token := by
  have chars (cs : List Char) : unescapeChars (cs.flatMap escapeChar) = cs := by
    induction cs with
    | nil => rfl
    | cons c cs ih => rw [List.flatMap_cons, unescapeChars_escapeChar, ih]
  rw [unescape, escape, String.toList_ofList, chars, String.ofList_toList]

/-- Every occurrence of a character replaced. -/
def replaceChar (c : Char) (replacement : List Char) (text : List Char) : List Char :=
  text.flatMap fun d => if d = c then replacement else [d]

/-- Escaping is replacing in two passes. The tildes come first: the second pass writes further ones,
which are to stay. -/
theorem toList_escape (token : String) : (escape token).toList =
    replaceChar '/' ['~', '1'] (replaceChar '~' ['~', '0'] token.toList) := by
  rw [escape, String.toList_ofList, replaceChar, replaceChar, List.flatMap_assoc]
  refine List.flatMap_congr fun c _ => ?_
  by_cases htilde : c = '~'
  · subst htilde
    rfl
  · simp [escapeChar, htilde]

theorem escape_injective : Function.Injective escape :=
  Function.LeftInverse.injective unescape_escape

theorem notMem_replaceChar {c : Char} {replacement : List Char} (h : c ∉ replacement)
    (text : List Char) : c ∉ replaceChar c replacement text := by
  intro hc
  obtain ⟨d, -, hc⟩ := List.mem_flatMap.mp hc
  split at hc
  · exact h hc
  · rename_i hd
    exact hd (List.mem_singleton.mp hc).symm

theorem slash_notMem_escape (token : String) : '/' ∉ (escape token).toList := by
  rw [toList_escape]
  exact notMem_replaceChar (by decide) _

/-! ## Steps -/

/-- A separator that occurs in neither tail splits a list in one way only. -/
theorem append_cons_inj_of_notMem {α : Type} {a : α} {as bs cs ds : List α} (hb : a ∉ bs)
    (hd : a ∉ ds) : as ++ a :: bs = cs ++ a :: ds ↔ as = cs ∧ bs = ds := by
  constructor
  · intro h
    induction as generalizing cs with
    | nil =>
      cases cs with
      | nil => simpa using h
      | cons c cs =>
        simp only [List.nil_append, List.cons_append, List.cons.injEq] at h
        exact absurd (by simp [h.2]) hb
    | cons b as ih =>
      cases cs with
      | nil =>
        simp only [List.nil_append, List.cons_append, List.cons.injEq] at h
        exact absurd (by simp [← h.2]) hd
      | cons c cs =>
        simp only [List.cons_append, List.cons.injEq] at h
        obtain ⟨rfl, h⟩ := h
        obtain ⟨rfl, rfl⟩ := ih h
        exact ⟨rfl, rfl⟩
  · rintro ⟨rfl, rfl⟩
    rfl

theorem toList_child (pointer name : String) :
    (child pointer name).toList = pointer.toList ++ '/' :: (escape name).toList := by
  simp [child]

theorem child_inj {pointer other name key : String} :
    child pointer name = child other key ↔ pointer = other ∧ name = key := by
  rw [← String.toList_inj, toList_child, toList_child,
    append_cons_inj_of_notMem (slash_notMem_escape name) (slash_notMem_escape key),
    String.toList_inj, String.toList_inj, escape_injective.eq_iff]

theorem child_append (pointer rest name : String) :
    child (pointer ++ rest) name = pointer ++ child rest name := by
  simp only [child, String.append_assoc]

theorem length_child (pointer name : String) :
    (child pointer name).length = pointer.length + (escape name).length + 1 := by
  simp only [child, String.length_append]
  exact Nat.add_right_comm pointer.length 1 (escape name).length

theorem child_ne_empty (pointer name : String) : child pointer name ≠ "" := by
  rw [Ne, ← String.toList_inj, toList_child]
  simp

end Pointer
end ItemShape
