import ItemShape.Proofs.Json.Pointer
import ItemShape.Proofs.Json.Tree

/-!
# ItemShape.Proofs.Json.Resolve

What a pointer leads to in a document: `Json.resolve?` reads it back token by token, a token being
the name of a member or the position of an item.

* `resolve?_child`: a pointer to a member leads where its last token leads from there.
* `resolve?_append`: a pointer inside what another one leads to.
* `Pointer.ofTokens`: the pointer with given tokens; other tokens have another pointer
  (`ofTokens_injective`).
* `Json.displayed?`: the same for pointers as they are shown, with a slash for the whole document.
-/

namespace ItemShape

/-! ## Tokens -/

namespace Pointer

/-- The tokens of a pointer: what stands between its slashes, read back. A pointer that is not empty
starts with a slash. -/
def tokens? (pointer : String) : Option (List String) :=
  match pointer.toList.splitOn '/' with
  | [] :: tokens => some (tokens.map fun token => unescape (String.ofList token))
  | _ => none

/-- The position that a token names, if it is written like a position. -/
def position? (token : String) : Option Nat :=
  let position := Nat.ofDigitChars 10 token.toList 0
  if toString position = token then some position else none

theorem position?_toString (position : Nat) : position? (toString position) = some position := by
  have read : Nat.ofDigitChars 10 (toString position).toList 0 = position := by
    rw [Nat.toString_eq_repr, Nat.toList_repr, Nat.ofDigitChars_toDigits (by decide) (by decide)]
  simp only [position?, read, if_true]

theorem toString_injective : Function.Injective (toString : Nat → String) := by
  intro position other h
  have read := congrArg position? h
  rwa [position?_toString, position?_toString, Option.some_inj] at read

theorem tokens?_empty : tokens? "" = some [] := by
  simp [tokens?]

theorem tokens?_child (pointer name : String) :
    tokens? (child pointer name) = (tokens? pointer).map fun tokens => tokens ++ [name] := by
  have split : (child pointer name).toList.splitOn '/' =
      pointer.toList.splitOn '/' ++ [(escape name).toList] := by
    rw [toList_child, List.splitOn_append_cons_self,
      List.splitOn_eq_singleton (slash_notMem_escape name)]
  rw [tokens?, tokens?, split]
  cases hs : pointer.toList.splitOn '/' with
  | nil => exact absurd hs (List.splitOn_ne_nil _ _)
  | cons first tokens =>
    cases first with
    | nil => simp [unescape_escape]
    | cons c cs => rfl

/-- The pointer with these tokens. -/
def ofTokens (tokens : List String) : String :=
  tokens.foldl child ""

theorem ofTokens_concat (tokens : List String) (name : String) :
    ofTokens (tokens ++ [name]) = child (ofTokens tokens) name := by
  simp [ofTokens]

theorem child_child_ofTokens (tokens : List String) (first second : String) :
    child (child (ofTokens tokens) first) second = ofTokens (tokens ++ [first, second]) := by
  rw [← ofTokens_concat, ← ofTokens_concat, List.append_assoc]
  rfl

theorem tokens?_ofTokens (tokens : List String) : tokens? (ofTokens tokens) = some tokens := by
  have extend (pointer : String) : tokens? (tokens.foldl child pointer) =
      (tokens? pointer).map fun first => first ++ tokens := by
    induction tokens generalizing pointer with
    | nil => simp
    | cons name rest ih =>
      rw [List.foldl_cons, ih, tokens?_child, Option.map_map]
      simp [Function.comp_def]
  rw [ofTokens, extend, tokens?_empty]
  rfl

theorem ofTokens_injective : Function.Injective ofTokens := by
  intro tokens others h
  have read := congrArg tokens? h
  rwa [tokens?_ofTokens, tokens?_ofTokens, Option.some_inj] at read

/-- The tokens of one pointer after another. -/
theorem tokens?_append {pointer rest : String} {tokens others : List String}
    (h : tokens? pointer = some tokens) (hr : tokens? rest = some others) :
    tokens? (pointer ++ rest) = some (tokens ++ others) := by
  rw [tokens?] at h hr ⊢
  cases hrest : rest.toList with
  | nil =>
    rw [hrest] at hr
    cases hr
    rw [String.toList_append, hrest, List.append_nil, List.map_nil, List.append_nil]
    exact h
  | cons c cs =>
    rw [hrest, List.splitOn_cons_eq_if_modifyHead] at hr
    by_cases hc : c = '/'
    · subst hc
      rw [if_pos (BEq.refl _)] at hr
      cases hr
      rw [String.toList_append, hrest, List.splitOn_append_cons_self]
      cases hs : pointer.toList.splitOn '/' with
      | nil => exact absurd hs (List.splitOn_ne_nil _ _)
      | cons first segments =>
        rw [hs] at h
        cases first with
        | nil =>
          cases h
          simp
        | cons d ds => cases h
    · rw [if_neg (by simpa using hc)] at hr
      cases hs : cs.splitOn '/' with
      | nil => exact absurd hs (List.splitOn_ne_nil _ _)
      | cons first segments =>
        rw [hs] at hr
        cases hr

end Pointer

/-! ## Documents -/

namespace Json

/-- What stands directly inside a document under a token. -/
def step? (token : String) : Json → Option Json
  | .object members => Entries.get? token members
  | .array items => (Pointer.position? token).bind fun position => items[position]?
  | _ => none

/-- What stands in a document at the end of some tokens. -/
def at? (document : Json) : List String → Option Json
  | [] => some document
  | token :: rest => (document.step? token).bind fun inner => inner.at? rest

/-- What a pointer leads to. -/
def resolve? (document : Json) (pointer : String) : Option Json :=
  (Pointer.tokens? pointer).bind document.at?

/-- What a pointer leads to as it is shown. -/
def displayed? (document : Json) (place : String) : Option Json :=
  if place = "/" then some document else document.resolve? place

theorem at?_append (document : Json) (tokens others : List String) :
    document.at? (tokens ++ others) = (document.at? tokens).bind fun inner => inner.at? others := by
  induction tokens generalizing document with
  | nil => rfl
  | cons token rest ih =>
    rw [List.cons_append, at?, at?, Option.bind_assoc]
    exact Option.bind_congr fun inner _ => ih inner

@[simp] theorem resolve?_empty (document : Json) : document.resolve? "" = some document := by
  rw [resolve?, Pointer.tokens?_empty]
  rfl

@[simp] theorem resolve?_ofTokens (document : Json) (tokens : List String) :
    document.resolve? (Pointer.ofTokens tokens) = document.at? tokens := by
  rw [resolve?, Pointer.tokens?_ofTokens, Option.bind_some]

theorem resolve?_child (document : Json) (pointer name : String) :
    document.resolve? (Pointer.child pointer name) =
      (document.resolve? pointer).bind (step? name) := by
  rw [resolve?, resolve?, Pointer.tokens?_child]
  cases Pointer.tokens? pointer with
  | none => rfl
  | some tokens =>
    simp only [Option.map_some, Option.bind_some, at?_append]
    refine Option.bind_congr fun inner _ => ?_
    rw [at?]
    cases inner.step? name <;> rfl

/-- A pointer inside what another pointer leads to. -/
theorem resolve?_append {document inner value : Json} {pointer rest : String}
    (h : document.resolve? pointer = some inner) (hr : inner.resolve? rest = some value) :
    document.resolve? (pointer ++ rest) = some value := by
  obtain ⟨tokens, ht, ha⟩ := Option.bind_eq_some_iff.mp h
  obtain ⟨others, ho, hb⟩ := Option.bind_eq_some_iff.mp hr
  rw [resolve?, Pointer.tokens?_append ht ho, Option.bind_some, at?_append, ha, Option.bind_some, hb]

example : (Json.object [("a/b", .array [.null, .bool true])]).resolve? "/a~1b/1" =
    some (.bool true) :=
  rfl

theorem displayed?_display {document value : Json} {pointer : String} (hp : pointer ≠ "/")
    (h : document.resolve? pointer = some value) :
    document.displayed? (Pointer.display pointer) = some value := by
  unfold displayed? Pointer.display
  by_cases he : pointer = ""
  · subst he
    rwa [resolve?_empty] at h
  · have shown : pointer.isEmpty = false := by simpa using he
    rw [shown, if_neg Bool.false_ne_true, if_neg hp, h]

/-! Distinct names, at every depth. -/

theorem distinctNames_array {items : List Json} :
    (Json.array items).DistinctNames ↔ ∀ item ∈ items, item.DistinctNames := by
  rw [DistinctNames]
  induction items with
  | nil => simp [ItemsDistinct]
  | cons item rest ih => rw [ItemsDistinct, ih, List.forall_mem_cons]

theorem distinctNames_object {members : List (String × Json)} :
    (Json.object members).DistinctNames ↔
      Entries.Distinct members ∧ ∀ entry ∈ members, entry.2.DistinctNames := by
  have each (members : List (String × Json)) :
      MembersDistinct members ↔ ∀ entry ∈ members, entry.2.DistinctNames := by
    induction members with
    | nil => simp [MembersDistinct]
    | cons entry rest ih => rw [MembersDistinct, ih, List.forall_mem_cons]
  rw [DistinctNames, each]

theorem DistinctNames.child {document inner : Json} (hd : document.DistinctNames)
    (h : inner ∈ document.children) : inner.DistinctNames := by
  cases document with
  | array items => exact distinctNames_array.mp hd inner h
  | object members =>
    obtain ⟨entry, he, rfl⟩ := List.mem_map.mp h
    exact (distinctNames_object.mp hd).2 entry he
  | _ => cases h

theorem DistinctNames.names {members : List (String × Json)}
    (hd : (Json.object members).DistinctNames) : Entries.Distinct members :=
  (distinctNames_object.mp hd).1

theorem DistinctNames.get? {members : List (String × Json)} {name : String} {value : Json}
    (hd : (Json.object members).DistinctNames) (hv : Entries.get? name members = some value) :
    value.DistinctNames :=
  hd.child (mem_children_of_get? hv)

end Json
end ItemShape
