import ItemShape.Schema.Transformer
import Mathlib.Data.List.Infix

/-!
# ItemShape.Proofs.Schema.Transformer

Transformers that can be undone (`Transformer.Faithful`). Putting a text before or behind strings
(`Transformer.Affix`) is one, whatever the text and the delimiter. Decoding a string that lacks the
text leaves it as it is (`Affix.decode_string`).
-/

namespace ItemShape
namespace Transformer

/-- Decoding undoes encoding, and neither changes the type of a value. -/
structure Faithful (transformer : Transformer) : Prop where
  decodes : ∀ v, transformer.decode (transformer.encode v) = v
  encodedType : ∀ v, (transformer.encode v).typeName = v.typeName
  decodedType : ∀ v, (transformer.decode v).typeName = v.typeName

theorem faithful_addPrefix (text delimiter : String) : (addPrefix text delimiter).Faithful where
  decodes v := by
    cases v with
    | string s =>
      have h : (text ++ delimiter).toList.isPrefixOf? (text ++ delimiter ++ s).toList =
          some s.toList := by
        rw [List.isPrefixOf?_eq_some_iff_append_eq]
        simp
      simp only [encode, decode]
      rw [h]
      simp
    | _ => rfl
  encodedType v := by cases v <;> rfl
  decodedType v := by
    cases v with
    | string s =>
      simp only [decode]
      split <;> rfl
    | _ => rfl

theorem faithful_addSuffix (text delimiter : String) : (addSuffix text delimiter).Faithful where
  decodes v := by
    cases v with
    | string s =>
      have h : (delimiter ++ text).toList.isSuffixOf? (s ++ delimiter ++ text).toList =
          some s.toList := by
        rw [List.isSuffixOf?_eq_some_iff_append_eq]
        simp
      simp only [encode, decode]
      rw [h]
      simp
    | _ => rfl
  encodedType v := by cases v <;> rfl
  decodedType v := by
    cases v with
    | string s =>
      simp only [decode]
      split <;> rfl
    | _ => rfl

/-- A text put before or behind strings. -/
inductive Affix : Transformer → Prop where
  | before (text delimiter : String) : Affix (addPrefix text delimiter)
  | behind (text delimiter : String) : Affix (addSuffix text delimiter)

variable {transformer : Transformer}

theorem Affix.faithful (h : transformer.Affix) : transformer.Faithful := by
  cases h with
  | before text delimiter => exact faithful_addPrefix text delimiter
  | behind text delimiter => exact faithful_addSuffix text delimiter

/-- Decoding takes the text off a string that encoding puts there, or leaves it as it is. -/
theorem Affix.decode_string (h : transformer.Affix) (s : String) :
    ∃ bare, transformer.decode (.string s) = .string bare ∧
      (bare = s ∨ transformer.encode (.string bare) = .string s) := by
  cases h with
  | before text delimiter =>
    simp only [decode]
    cases hp : (text ++ delimiter).toList.isPrefixOf? s.toList with
    | none => exact ⟨s, rfl, .inl rfl⟩
    | some rest =>
      rw [List.isPrefixOf?_eq_some_iff_append_eq] at hp
      refine ⟨_, rfl, .inr (congrArg Value.string ?_)⟩
      rw [← String.toList_inj, String.toList_append, String.toList_ofList, hp]
  | behind text delimiter =>
    simp only [decode]
    cases hp : (delimiter ++ text).toList.isSuffixOf? s.toList with
    | none => exact ⟨s, rfl, .inl rfl⟩
    | some rest =>
      rw [List.isSuffixOf?_eq_some_iff_append_eq] at hp
      refine ⟨_, rfl, .inr (congrArg Value.string ?_)⟩
      rw [String.append_assoc, ← String.toList_inj, String.toList_append, String.toList_ofList, hp]

end Transformer
end ItemShape
