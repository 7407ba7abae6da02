import ItemShape.Proofs.Definition.Located
import Mathlib.Data.Set.Function

/-!
# ItemShape.Proofs.Lint.Ignored

The warnings of the linter are the ignored names of a document, each of them once
(`keywordFindings_exact`).

* `Reached`: the definitions of a document, by the tokens that lead to them. The tokens say where a
  definition stands before anything is known of pointers.
* `Ignored`: an unknown keyword of a definition, or an unknown mode of its validators.
* `Under`: a pointer goes through these tokens first. What is found in a definition lies under the
  tokens of the definition (`under_of_mem`), and two tokens at one place have nothing in common
  below them (`Under.token_eq`). So the findings of a definition, of its validators and of the
  definitions inside it have different pointers (`keywordFindings_apart`).
-/

namespace ItemShape
namespace Lint

variable {document : Json} {members : List (String × Json)} {path tokens : List String}

/-! ## Definitions in a document -/

/-- The definitions directly inside a definition, with the tokens that lead to them. -/
inductive Step (members : List (String × Json)) : List String → Json → Prop where
  | one {keyword : String} {value : Json} (hk : keyword = "elements" ∨ keyword = "keys")
    (hv : Entries.get? keyword members = some value) : Step members [keyword] value
  | named {definitions : List (String × Json)} {name : String} {value : Json}
    (hv : Entries.get? "attributes" members = some (.object definitions))
    (hm : (name, value) ∈ definitions) : Step members ["attributes", name] value
  | listed {definitions : List Json} {i : Nat} {value : Json}
    (hv : Entries.get? "members" members = some (.array definitions))
    (hi : definitions[i]? = some value) : Step members ["members", toString i] value

/-- What is taken for a definition in a document: the document itself, and what stands inside such
a definition where definitions belong. -/
inductive Reached (document : Json) : List String → Json → Prop where
  | root : Reached document [] document
  | inside {path tokens : List String} {members : List (String × Json)} {value : Json}
    (h : Reached document path (.object members)) (hs : Step members tokens value) :
    Reached document (path ++ tokens) value

theorem part_iff_step {place : String} {value : Json} :
    Part (Pointer.ofTokens path) members place value ↔
      ∃ tokens, Step members tokens value ∧ place = Pointer.ofTokens (path ++ tokens) := by
  constructor
  · intro h
    cases h with
    | one hk hv => exact ⟨_, .one hk hv, (Pointer.ofTokens_concat _ _).symm⟩
    | named hv hm => exact ⟨_, .named hv hm, Pointer.child_child_ofTokens _ _ _⟩
    | listed hv hi => exact ⟨_, .listed hv hi, Pointer.child_child_ofTokens _ _ _⟩
  · rintro ⟨tokens, hs, rfl⟩
    cases hs with
    | one hk hv =>
      rw [Pointer.ofTokens_concat]
      exact .one hk hv
    | named hv hm =>
      rw [← Pointer.child_child_ofTokens]
      exact .named hv hm
    | listed hv hi =>
      rw [← Pointer.child_child_ofTokens]
      exact .listed hv hi

theorem Step.at? {value : Json} (hd : (Json.object members).DistinctNames)
    (h : Step members tokens value) :
    (Json.object members).at? tokens = some value ∧ value.DistinctNames := by
  have part : Part (Pointer.ofTokens []) members (Pointer.ofTokens tokens) value :=
    part_iff_step.mpr ⟨tokens, h, rfl⟩
  have leads := Definition.resolve?_part hd part
  rwa [Json.resolve?_ofTokens] at leads

/-- The tokens of a definition lead to it. -/
theorem Reached.at? {value : Json} (hd : document.DistinctNames)
    (h : Reached document path value) :
    document.at? path = some value ∧ value.DistinctNames := by
  induction h with
  | root => exact ⟨rfl, hd⟩
  | inside _ hs ih =>
    obtain ⟨leads, distinct⟩ := ih
    rw [Json.at?_append, leads]
    exact hs.at? distinct

/-! ## Ignored names -/

/-- A name that decoding ignores, with the tokens of the definition that it belongs to. -/
inductive Ignored where
  | keyword (definition : List String) (name : String)
  | mode (definition : List String) (name : String)

namespace Ignored

def route : Ignored → List String
  | keyword definition name => definition ++ [name]
  | mode definition name => definition ++ ["validate", name]

def finding (site : Ignored) : Finding :=
  match site with
  | keyword _ name => .unknownKeyword (Pointer.ofTokens site.route) name
  | mode _ name => .unknownMode (Pointer.ofTokens site.route) name

/-- The document has the ignored name, with this value. -/
inductive In (document : Json) : Ignored → Json → Prop where
  | keyword {definition : List String} {members : List (String × Json)} {name : String}
    {value : Json} (h : Reached document definition (.object members))
    (hm : (name, value) ∈ members) (hn : name ∉ Definition.keywords) :
    In document (.keyword definition name) value
  | mode {definition : List String} {members fragments : List (String × Json)} {name : String}
    {value : Json} (h : Reached document definition (.object members))
    (hv : Entries.get? "validate" members = some (.object fragments))
    (hm : (name, value) ∈ fragments) (hn : name ∉ Mode.names) :
    In document (.mode definition name) value

theorem pointer_finding (site : Ignored) :
    site.finding.pointer = Pointer.ofTokens site.route := by
  cases site <;> rfl

theorem finding_injective : Function.Injective finding := by
  intro site other h
  have same : site.route = other.route := by
    refine Pointer.ofTokens_injective ?_
    rw [← pointer_finding, ← pointer_finding, h]
  cases site with
  | keyword definition name =>
    cases other with
    | keyword definition' name' =>
      obtain ⟨rfl, hn⟩ := List.append_inj' same rfl
      cases hn
      rfl
    | mode definition' name' => cases h
  | mode definition name =>
    cases other with
    | keyword definition' name' => cases h
    | mode definition' name' =>
      obtain ⟨rfl, hn⟩ := List.append_inj' same rfl
      cases hn
      rfl

/-- The tokens of an ignored name lead to its value. -/
theorem In.at? {site : Ignored} {value : Json} (hd : document.DistinctNames)
    (h : site.In document value) : document.at? site.route = some value := by
  cases h with
  | keyword h hm hn =>
    obtain ⟨leads, distinct⟩ := h.at? hd
    rw [Ignored.route, Json.at?_append, leads, Option.bind_some, Json.at?, Json.step?,
      Entries.get?_of_mem distinct.names hm]
    rfl
  | mode h hv hm hn =>
    obtain ⟨leads, distinct⟩ := h.at? hd
    rw [Ignored.route, Json.at?_append, leads, Option.bind_some, Json.at?, Json.step?, hv,
      Option.bind_some, Json.at?, Json.step?, Entries.get?_of_mem (distinct.get? hv).names hm]
    rfl

end Ignored

/-! ## Findings are ignored names -/

variable {f : Finding} {d : Json}

theorem exists_ignored_of_mem (h : Reached document path d)
    (hf : f ∈ keywordFindings (Pointer.ofTokens path) d) :
    ∃ site value, Ignored.In document site value ∧ site.finding = f := by
  -- Attributes and members lie two levels down, so the hypothesis is for everything inside.
  induction d using Json.induct_below generalizing path with
  | step d ih =>
    cases d with
    | object members =>
      rcases mem_keywordFindings_object.mp hf with hf | hf | ⟨place, value, hp, hf⟩
      · obtain ⟨name, hm, hn, rfl⟩ := mem_unknownKeywords.mp hf
        obtain ⟨value, hm⟩ := Entries.mem_names.mp hm
        refine ⟨.keyword path name, value, .keyword h hm hn, ?_⟩
        rw [Ignored.finding, Ignored.route, Pointer.ofTokens_concat]
      · obtain ⟨fragments, hv, hf⟩ := mem_validatorFindings.mp hf
        obtain ⟨name, hm, hn, rfl⟩ := mem_unknownModes.mp hf
        obtain ⟨value, hm⟩ := Entries.mem_names.mp hm
        refine ⟨.mode path name, value, .mode h hv hm hn, ?_⟩
        rw [Ignored.finding, Ignored.route, ← Pointer.child_child_ofTokens]
      · obtain ⟨tokens, hs, rfl⟩ := part_iff_step.mp hp
        exact ih value hp.below (h.inside hs) hf
    | _ => cases hf

/-- What is found in a definition is found in the document. -/
theorem mem_of_reached (h : Reached document path d)
    (hf : f ∈ keywordFindings (Pointer.ofTokens path) d) : f ∈ keywordFindings "" document := by
  induction h with
  | root => exact hf
  | inside _ hs ih =>
    refine ih (mem_keywordFindings_object.mpr (.inr (.inr ⟨_, _, ?_, hf⟩)))
    exact part_iff_step.mpr ⟨_, hs, rfl⟩

theorem mem_of_ignored {site : Ignored} {value : Json} (h : site.In document value) :
    site.finding ∈ keywordFindings "" document := by
  cases h with
  | @keyword definition members name value h hm hn =>
    refine mem_of_reached h (mem_keywordFindings_object.mpr (.inl ?_))
    rw [Ignored.finding, Ignored.route, Pointer.ofTokens_concat]
    exact mem_unknownKeywords.mpr ⟨name, Entries.mem_names_of_mem hm, hn, rfl⟩
  | @mode definition members fragments name value h hv hm hn =>
    refine mem_of_reached h (mem_keywordFindings_object.mpr (.inr (.inl ?_)))
    rw [Ignored.finding, Ignored.route, ← Pointer.child_child_ofTokens]
    refine mem_validatorFindings.mpr ⟨fragments, hv, ?_⟩
    exact mem_unknownModes.mpr ⟨name, Entries.mem_names_of_mem hm, hn, rfl⟩

/-! ## Pointers below tokens -/

/-- The pointer starts with these tokens. -/
def Under (path : List String) (pointer : String) : Prop :=
  ∃ rest, pointer = Pointer.ofTokens (path ++ rest)

variable {pointer : String}

theorem Under.up (h : Under (path ++ tokens) pointer) : Under path pointer := by
  obtain ⟨rest, rfl⟩ := h
  exact ⟨tokens ++ rest, by rw [List.append_assoc]⟩

theorem Under.token_eq {token other : String} (h : Under (path ++ [token]) pointer)
    (h' : Under (path ++ [other]) pointer) : token = other := by
  obtain ⟨rest, rfl⟩ := h
  obtain ⟨rest', hp⟩ := h'
  have same := Pointer.ofTokens_injective hp
  rw [List.append_assoc, List.append_assoc] at same
  exact (List.cons.inj (List.append_cancel_left same)).1

theorem under_child (path : List String) (name : String) :
    Under (path ++ [name]) (Pointer.child (Pointer.ofTokens path) name) :=
  ⟨[], by rw [List.append_nil, Pointer.ofTokens_concat]⟩

theorem under_of_mem_unknownKeywords (hf : f ∈ unknownKeywords (Pointer.ofTokens path) members) :
    ∃ name, name ∉ Definition.keywords ∧ Under (path ++ [name]) f.pointer := by
  obtain ⟨name, -, hn, rfl⟩ := mem_unknownKeywords.mp hf
  exact ⟨name, hn, under_child path name⟩

theorem under_of_mem_validatorFindings
    (hf : f ∈ validatorFindings (Pointer.ofTokens path) members) :
    Under (path ++ ["validate"]) f.pointer := by
  obtain ⟨fragments, -, hf⟩ := mem_validatorFindings.mp hf
  obtain ⟨name, -, -, rfl⟩ := mem_unknownModes.mp hf
  rw [← Pointer.ofTokens_concat]
  exact (under_child _ name).up

theorem under_of_mem (hf : f ∈ keywordFindings (Pointer.ofTokens path) d) :
    Under path f.pointer := by
  induction d using Json.induct_below generalizing path with
  | step d ih =>
    cases d with
    | object members =>
      rcases mem_keywordFindings_object.mp hf with hf | hf | ⟨place, value, hp, hf⟩
      · obtain ⟨name, -, under⟩ := under_of_mem_unknownKeywords hf
        exact under.up
      · exact (under_of_mem_validatorFindings hf).up
      · obtain ⟨tokens, hs, rfl⟩ := part_iff_step.mp hp
        exact (ih value hp.below hf).up
    | _ => cases hf

theorem under_of_mem_named {definitions : List (String × Json)}
    (hf : f ∈ namedFindings (Pointer.ofTokens path) definitions) : Under path f.pointer := by
  obtain ⟨entry, -, hf⟩ := mem_namedFindings.mp hf
  rw [← Pointer.ofTokens_concat] at hf
  exact (under_of_mem hf).up

theorem under_of_mem_listed {definitions : List Json} {start : Nat}
    (hf : f ∈ listedFindings (Pointer.ofTokens path) start definitions) : Under path f.pointer := by
  obtain ⟨i, item, -, hf⟩ := mem_listedFindings.mp hf
  rw [← Pointer.ofTokens_concat] at hf
  exact (under_of_mem hf).up

theorem under_of_mem_partFindingsAt {keyword : String} {value : Json}
    (hf : f ∈ partFindingsAt (Pointer.ofTokens path) keyword value) :
    Under (path ++ [keyword]) f.pointer := by
  unfold partFindingsAt at hf
  rw [← Pointer.ofTokens_concat] at hf
  split at hf
  · exact under_of_mem hf
  · split at hf
    · split at hf
      · exact under_of_mem_named hf
      · cases hf
    · split at hf
      · exact under_of_mem_listed hf
      · cases hf
    · cases hf

/-! ## Different pointers -/

/-- No two of the findings, at different positions, have the same pointer. -/
def Apart (findings : List Finding) : Prop :=
  (findings.map Finding.pointer).Nodup

theorem apart_append {findings others : List Finding} :
    Apart (findings ++ others) ↔
      Apart findings ∧ Apart others ∧ ∀ f ∈ findings, ∀ g ∈ others, f.pointer ≠ g.pointer := by
  simp [Apart, List.nodup_append]

/-- Groups of findings, each under a token of its own. -/
theorem apart_flatMap {ι : Type} {groups : List ι} {found : ι → List Finding} (path : List String)
    (token : ι → String) (distinct : (groups.map token).Nodup)
    (each : ∀ i ∈ groups, Apart (found i))
    (under : ∀ i ∈ groups, ∀ f ∈ found i, Under (path ++ [token i]) f.pointer) :
    Apart (groups.flatMap found) := by
  induction groups with
  | nil => exact List.nodup_nil
  | cons i rest ih =>
    rw [List.map_cons, List.nodup_cons] at distinct
    rw [List.flatMap_cons, apart_append]
    have others := ih distinct.2 (fun j hj => each j (List.mem_cons_of_mem _ hj))
      fun j hj => under j (List.mem_cons_of_mem _ hj)
    refine ⟨each i List.mem_cons_self, others, fun f hf g hg he => distinct.1 ?_⟩
    obtain ⟨j, hj, hg⟩ := List.mem_flatMap.mp hg
    have first := under i List.mem_cons_self f hf
    rw [he] at first
    rw [first.token_eq (under j (List.mem_cons_of_mem _ hj) g hg)]
    exact List.mem_map_of_mem hj

/-- Members with distinct names, some of which are reported. -/
theorem apart_unknownNames {known : List String} {report : String → Finding}
    (hd : Entries.Distinct members)
    (hr : ∀ name, (report name).pointer = Pointer.child pointer name) :
    Apart ((unknownNames known members).map report) := by
  have pointers : Finding.pointer ∘ report = Pointer.child pointer := funext hr
  rw [Apart, List.map_map, pointers]
  exact (List.Nodup.filter _ hd).map fun _ _ h => (Pointer.child_inj.mp h).2

theorem apart_unknownKeywords (hd : Entries.Distinct members) :
    Apart (unknownKeywords pointer members) := by
  rw [unknownKeywords_eq_map]
  exact apart_unknownNames hd fun _ => rfl

theorem apart_validatorFindings (hd : (Json.object members).DistinctNames) :
    Apart (validatorFindings pointer members) := by
  rw [validatorFindings]
  split
  · rename_i fragments hv
    rw [unknownModes_eq_map]
    exact apart_unknownNames (hd.get? hv).names fun _ => rfl
  · exact List.nodup_nil

theorem apart_namedFindings {definitions : List (String × Json)}
    (hd : Entries.Distinct definitions) (each : ∀ entry ∈ definitions, ∀ path,
      Apart (keywordFindings (Pointer.ofTokens path) entry.2)) :
    Apart (namedFindings (Pointer.ofTokens path) definitions) := by
  rw [namedFindings_eq_flatMap]
  simp only [← Pointer.ofTokens_concat]
  refine apart_flatMap path Prod.fst hd (fun entry he => each entry he _) ?_
  intro entry _ f hf
  exact under_of_mem hf

theorem apart_listedFindings {definitions : List Json}
    (each : ∀ item ∈ definitions, ∀ path, Apart (keywordFindings (Pointer.ofTokens path) item)) :
    Apart (listedFindings (Pointer.ofTokens path) 0 definitions) := by
  have positions : ((definitions.zipIdx 0).map fun item => toString item.2).Nodup := by
    have numbers : (definitions.zipIdx 0).map Prod.snd = List.range' 0 definitions.length :=
      List.zipIdx_map_snd _ _
    have distinct : (List.range' 0 definitions.length).Nodup := List.nodup_range'
    rw [← numbers] at distinct
    have written := distinct.map Pointer.toString_injective
    rwa [List.map_map] at written
  rw [listedFindings_eq_flatMap]
  simp only [← Pointer.ofTokens_concat]
  refine apart_flatMap path _ positions (fun item hi => each item.1 ?_ _) ?_
  · exact List.fst_mem_of_mem_zipIdx hi
  · intro item _ f hf
    exact under_of_mem hf

theorem apart_partFindingsAt {keyword : String} {value : Json} (hd : value.DistinctNames)
    (here : ∀ path, Apart (keywordFindings (Pointer.ofTokens path) value))
    (inside : ∀ child ∈ value.children, ∀ path,
      Apart (keywordFindings (Pointer.ofTokens path) child)) :
    Apart (partFindingsAt (Pointer.ofTokens path) keyword value) := by
  unfold partFindingsAt
  rw [← Pointer.ofTokens_concat]
  split
  · exact here _
  · split
    · split
      · exact apart_namedFindings hd.names fun entry he =>
          inside _ (Json.mem_children_of_members? rfl he)
      · exact List.nodup_nil
    · split
      · exact apart_listedFindings inside
      · exact List.nodup_nil
    · exact List.nodup_nil

/-- What is found in the definitions under one keyword. -/
theorem under_of_mem_parts {keyword : String} (hf : f ∈ (Entries.get? keyword
    (partFindings (Pointer.ofTokens path) members)).getD []) :
    Under (path ++ [keyword]) f.pointer := by
  obtain ⟨value, -, hf⟩ := mem_get?_partFindings.mp hf
  exact under_of_mem_partFindingsAt hf

theorem apart_parts (hd : (Json.object members).DistinctNames)
    (below : ∀ inner, inner.Below (.object members) → inner.DistinctNames → ∀ path,
      Apart (keywordFindings (Pointer.ofTokens path) inner)) :
    Apart (childKeywords.flatMap fun keyword => (Entries.get? keyword
      (partFindings (Pointer.ofTokens path) members)).getD []) := by
  refine apart_flatMap path id (by decide) (fun keyword _ => ?_) fun keyword _ f hf =>
    under_of_mem_parts hf
  rw [partFindings_eq_map, Entries.get?_map]
  cases hv : Entries.get? keyword members with
  | none => exact List.nodup_nil
  | some value =>
    have child : value ∈ (Json.object members).children := Json.mem_children_of_get? hv
    have distinct : value.DistinctNames := hd.child child
    refine apart_partFindingsAt distinct (below value (.child child) distinct) ?_
    intro inner hi
    exact below inner (.inside (.child hi) child) (distinct.child hi)

theorem childKeywords_subset : childKeywords ⊆ Definition.keywords := by
  decide

/-- A definition is reported under names that are no keywords, its validators under theirs, and the
definitions inside under the keywords that hold definitions. -/
theorem keywordFindings_apart (hd : d.DistinctNames) (path : List String) :
    Apart (keywordFindings (Pointer.ofTokens path) d) := by
  induction d using Json.induct_below generalizing path with
  | step d ih =>
    cases d with
    | object members =>
      rw [keywordFindings, ofParts, apart_append, apart_append]
      refine ⟨⟨apart_unknownKeywords hd.names, apart_validatorFindings hd, ?_⟩,
        apart_parts hd ih, ?_⟩
      -- A shared pointer would have two first tokens: an unknown name and a keyword, or two
      -- different keywords.
      · intro f hf g hg he
        obtain ⟨name, hn, hname⟩ := under_of_mem_unknownKeywords hf
        rw [he] at hname
        rw [hname.token_eq (under_of_mem_validatorFindings hg)] at hn
        exact hn (by decide)
      · intro f hf g hg he
        obtain ⟨keyword, hk, hg⟩ := List.mem_flatMap.mp hg
        have hkeyword := under_of_mem_parts hg
        rw [← he] at hkeyword
        rcases List.mem_append.mp hf with hf | hf
        · obtain ⟨name, hn, hname⟩ := under_of_mem_unknownKeywords hf
          rw [hname.token_eq hkeyword] at hn
          exact hn (childKeywords_subset hk)
        · rw [← (under_of_mem_validatorFindings hf).token_eq hkeyword] at hk
          exact absurd hk (by decide)
    | _ => exact List.nodup_nil

/-! ## All ignored names, once each -/

/-- The warnings about a document are its ignored names, one for each. Their pointers are pairwise
different, and each of them leads to the value of the name. -/
theorem keywordFindings_exact (hd : document.DistinctNames) :
    Set.BijOn Ignored.finding {site | ∃ value, site.In document value}
        {f | f ∈ keywordFindings "" document} ∧
      ((keywordFindings "" document).map Finding.pointer).Nodup ∧
      ∀ site value, Ignored.In document site value →
        document.resolve? site.finding.pointer = some value := by
  refine ⟨⟨?_, Ignored.finding_injective.injOn, ?_⟩, keywordFindings_apart hd [], ?_⟩
  · rintro site ⟨value, h⟩
    exact mem_of_ignored h
  · intro f hf
    obtain ⟨site, value, h, he⟩ := exists_ignored_of_mem .root hf
    exact ⟨site, ⟨value, h⟩, he⟩
  · intro site value h
    rw [Ignored.pointer_finding, Json.resolve?_ofTokens]
    exact h.at? hd

/-- Attributes whose names are a keyword and a text with a slash: the first one has validators with
an unknown mode, the second one an unknown keyword with a tilde. -/
theorem keywordFindings_exact_keyword_as_name :
    let flagged := Json.object [("type", .string "string"),
      ("validate", .object [("put", .object []), ("create", .bool true)])]
    let noted := Json.object [("x~y", .null)]
    let document := Json.object [("type", .string "map"), ("note", .string "n"),
      ("attributes", .object [("validate", flagged), ("a/b", noted)])]
    let mode := Ignored.mode ["attributes", "validate"] "create"
    document.DistinctNames ∧
      (keywordFindings "" document).map Finding.pointer =
        ["/note", "/attributes/validate/validate/create", "/attributes/a~1b/x~0y"] ∧
      ((keywordFindings "" document).map Finding.pointer).Nodup ∧
      mode.In document (.bool true) ∧ mode.finding ∈ keywordFindings "" document ∧
      document.resolve? "/attributes/validate/validate/create" = some (.bool true) ∧
      ∃ (site : Ignored) (value : Json), site.In document value ∧
        site.finding = .unknownKeyword "/attributes/a~1b/x~0y" "x~y" := by
  intro flagged noted document mode
  have distinct : document.DistinctNames := by
    simp [document, flagged, noted, Json.DistinctNames, Json.MembersDistinct, Entries.Distinct,
      Entries.names]
  have listed : keywordFindings "" document =
      [.unknownKeyword "/note" "note", .unknownMode "/attributes/validate/validate/create" "create",
        .unknownKeyword "/attributes/a~1b/x~0y" "x~y"] := rfl
  have reached : Reached document ([] ++ ["attributes", "validate"]) flagged :=
    .inside .root (.named rfl List.mem_cons_self)
  have ignored : mode.In document (.bool true) :=
    .mode reached rfl (List.mem_cons_of_mem _ List.mem_cons_self) (by decide)
  obtain ⟨⟨reported, -, found⟩, nodup, leads⟩ := keywordFindings_exact distinct
  have known : .unknownKeyword "/attributes/a~1b/x~0y" "x~y" ∈ keywordFindings "" document := by
    simp [listed]
  obtain ⟨site, ⟨value, h⟩, he⟩ := found known
  exact ⟨distinct, by rw [listed]; rfl, nodup, ignored, reported ⟨_, ignored⟩, leads mode _ ignored,
    site, value, h, he⟩

end Lint
end ItemShape
