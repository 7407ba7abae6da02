import ItemShape.Command.Run
import ItemShape.Proofs.Lint.Findings

/-!
# ItemShape.Proofs.Lint.Verdict

The verdict on checked files. It is given three times: the exit code is taken from the numbers of
errors and warnings, the number of failed files from the status of each file, and the loader decodes
the files on its own. `verdicts_agree` says that the three agree, strict or not, whatever compiles
the fragments of the definitions.

What ties them together is the list of findings: each verdict is good exactly if every finding is
tolerated (`Finding.Tolerated`), and no finding is an error exactly if the file can be loaded.
-/

namespace ItemShape

namespace Finding

theorem isWarning_eq (finding : Finding) : finding.isWarning = !finding.isError := by
  cases finding <;> rfl

/-- The finding does not count against its file: it is a warning, and the run is not strict. -/
def Tolerated (strict : Bool) (finding : Finding) : Prop :=
  finding.isError = false ∧ strict = false

end Finding

namespace Lint

/-! ## Findings and the loader -/

theorem isError_of_mem_keywordFindings {pointer : String} {f : Finding} (d : Json)
    (h : f ∈ keywordFindings pointer d) : f.isError = false := by
  induction d using Json.induct_below generalizing pointer with
  | step d ih =>
    cases d with
    | object members =>
      rcases mem_keywordFindings_object.mp h with h | h | ⟨place, value, hp, h⟩
      · obtain ⟨name, -, -, rfl⟩ := mem_unknownKeywords.mp h
        rfl
      · obtain ⟨fragments, -, h⟩ := mem_validatorFindings.mp h
        obtain ⟨name, -, -, rfl⟩ := mem_unknownModes.mp h
        rfl
      · exact ih value hp.below h
    | _ => cases h

theorem documentFindings_errorFree_iff [FragmentCompiler] {document : Json} :
    (∀ f ∈ documentFindings document, f.isError = false) ↔
      ∃ schema, Definition.decode document = .ok schema := by
  unfold documentFindings
  cases Definition.decode document with
  | ok schema => exact iff_of_true (fun f hf => isError_of_mem_keywordFindings document hf) ⟨_, rfl⟩
  | error e =>
    refine iff_of_false (fun h => ?_) (by simp)
    exact Bool.noConfusion (h (.badDefinition e) List.mem_cons_self)

/-- A file without errors is one that can be loaded. -/
theorem findings_errorFree_iff [FragmentCompiler] {view : FileView} {path : String} :
    (∀ f ∈ findings view path, f.isError = false) ↔
      ∃ schema, loadDefinition view path = .ok schema := by
  unfold findings loadDefinition
  cases loadDocument view path with
  | ok document => exact documentFindings_errorFree_iff
  | error e =>
    refine iff_of_false (fun h => ?_) (by simp)
    exact Bool.noConfusion (h (.noDocument e) List.mem_cons_self)

/-! ## Findings and the counts -/

namespace FileResult

variable {result : FileResult}

theorem status_eq_error_iff :
    result.status = .error ↔ ∃ f ∈ result.findings, f.isError = true := by
  rw [← List.any_eq_true, status]
  split
  · rename_i h
    exact iff_of_true rfl h
  · rename_i h
    refine iff_of_false (fun hs => ?_) h
    split at hs <;> cases hs

theorem status_eq_ok_iff : result.status = .ok ↔ result.findings = [] := by
  rw [status]
  cases hf : result.findings with
  | nil => exact iff_of_true rfl rfl
  | cons f rest =>
    refine iff_of_false (fun hs => ?_) (by simp)
    split at hs
    · cases hs
    · rename_i herror
      split at hs
      · cases hs
      · rename_i hwarning
        rw [List.any_cons, Bool.or_eq_true, not_or] at herror hwarning
        rw [Finding.isWarning_eq] at hwarning
        simp [herror.1] at hwarning

theorem fails_eq_false_iff {strict : Bool} :
    result.fails strict = false ↔ ∀ f ∈ result.findings, f.Tolerated strict := by
  cases strict with
  | false =>
    have passes : result.fails false = false ↔ ¬ result.status = .error := by simp [fails]
    rw [passes, status_eq_error_iff]
    simp [Finding.Tolerated]
  | true =>
    have passes : result.fails true = false ↔ result.status = .ok := by simp [fails]
    rw [passes, status_eq_ok_iff, List.eq_nil_iff_forall_not_mem]
    simp [Finding.Tolerated]

end FileResult

namespace Result

variable {result : Result}

theorem passed_add_failed (result : Result) :
    result.passed + result.failed = result.filesChecked :=
  Nat.sub_add_cancel List.countP_le_length

theorem failed_eq_zero_iff :
    result.failed = 0 ↔ ∀ f ∈ result.findings, f.Tolerated result.strict := by
  have passes : result.failed = 0 ↔
      ∀ file ∈ result.files, file.fails result.strict = false := by
    simp [failed, List.countP_eq_zero]
  simp only [passes, FileResult.fails_eq_false_iff, findings, List.mem_flatMap]
  constructor
  · rintro h f ⟨file, hm, hf⟩
    exact h file hm f hf
  · intro h file hm f hf
    exact h f ⟨file, hm, hf⟩

theorem succeeds_iff :
    result.succeeds = true ↔ ∀ f ∈ result.findings, f.Tolerated result.strict := by
  have ok : result.isOk = true ↔ ∀ f ∈ result.findings, f.isError = false := by
    simp [isOk, errors, List.countP_eq_zero]
  have silent : result.warnings = 0 ↔ ∀ f ∈ result.findings, f.isError = true := by
    simp [warnings, List.countP_eq_zero, Finding.isWarning_eq]
  simp only [succeeds, Bool.and_eq_true, ok, Bool.or_eq_true, Bool.not_eq_true', beq_iff_eq,
    silent, Finding.Tolerated]
  constructor
  · rintro ⟨herror, hstrict | hsilent⟩ f hf
    · exact ⟨herror f hf, hstrict⟩
    · exact absurd (hsilent f hf) (by simp [herror f hf])
  · intro h
    refine ⟨fun f hf => (h f hf).1, ?_⟩
    cases hs : result.strict with
    | false => exact .inl rfl
    | true =>
      refine .inr fun f hf => ?_
      have hlax := (h f hf).2
      rw [hs] at hlax
      cases hlax

end Result

/-! ## Runs -/

/-- No file of a run fails if all of them can be loaded and, in a strict run, nothing is found. -/
theorem failed_ofFiles_eq_zero_iff [FragmentCompiler] {view : FileView} {path : String}
    {strict : Bool} {files : List String} : (ofFiles view path strict files).failed = 0 ↔
      (∀ file ∈ files, ∃ schema, loadDefinition view file = .ok schema) ∧
        (strict = true → ∀ file ∈ files, findings view file = []) := by
  have mem_findings {f : Finding} : f ∈ (ofFiles view path strict files).findings ↔
      ∃ file ∈ files, f ∈ findings view file := by
    simp [Result.findings, ofFiles, file]
  rw [Result.failed_eq_zero_iff]
  simp only [mem_findings, ← findings_errorFree_iff, Finding.Tolerated]
  constructor
  · intro h
    refine ⟨fun file hm f hf => (h f ⟨file, hm, hf⟩).1, ?_⟩
    rintro rfl file hm
    refine List.eq_nil_iff_forall_not_mem.mpr fun f hf => ?_
    exact Bool.noConfusion (h f ⟨file, hm, hf⟩).2
  · rintro ⟨hload, hstrict⟩ f ⟨file, hm, hf⟩
    refine ⟨hload file hm f hf, Bool.eq_false_iff.mpr fun hs => ?_⟩
    rw [hstrict hs file hm] at hf
    cases hf

/-- The verdicts on some definition files agree. Every file passes or fails; none fails exactly if
the loader takes all of them and, in a strict run, nothing at all is found. Where the files are
those at or below an existing path, the exit code of the command says whether any of them fails. -/
theorem verdicts_agree [FragmentCompiler] (view : FileView) (path : String) (strict : Bool)
    (files : List String) :
    let result := ofFiles view path strict files
    (result.passed + result.failed = result.filesChecked ∧ result.filesChecked = files.length) ∧
      (result.failed = 0 ↔
        (∀ file ∈ files, ∃ schema, loadDefinition view file = .ok schema) ∧
          (strict = true → ∀ file ∈ files, findings view file = [])) ∧
      (view path ≠ none → files = definitionFiles view path → ∀ form quiet, ∃ report,
        (Command.lint path form strict quiet).run view = .done report ∧
          report.code = if result.failed = 0 then 0 else 1) := by
  intro result
  refine ⟨⟨result.passed_add_failed, List.length_map _⟩, failed_ofFiles_eq_zero_iff, ?_⟩
  intro hpath hfiles form quiet
  obtain ⟨tree, htree⟩ := Option.ne_none_iff_exists'.mp hpath
  have hrun : run view path strict = result := by rw [run, ← hfiles]
  have hsucceeds : result.succeeds = true ↔ result.failed = 0 :=
    Result.succeeds_iff.trans Result.failed_eq_zero_iff.symm
  simp only [Command.run, Command.runLint, htree, hrun, hsucceeds]
  exact ⟨_, rfl, rfl⟩

/-- A file with an unknown keyword, and a fragment that accepts everything, fails in a strict run and
passes in another one. -/
theorem verdicts_agree_unknown_keyword :
    let _ : FragmentCompiler := ⟨fun _ => .ok fun _ => none⟩
    let text := "\x7b\"type\":\"string\",\"size\":1,\"validate\":\x7b\"put\":true\x7d\x7d"
    let view := FileView.ofTrees [("d", .directory [("a.json", .file text.toUTF8)])]
    let files := definitionFiles view "d"
    (view "d" ≠ none ∧ files = ["d/a.json"]) ∧
      (∀ form quiet, ∃ report,
        (Command.lint "d" form true quiet).run view = .done report ∧ report.code = 1) ∧
      ∀ form quiet, ∃ report,
        (Command.lint "d" form false quiet).run view = .done report ∧ report.code = 0 := by
  intro _ text view files
  have known : view "d" ≠ none := Option.isSome_iff_ne_none.mp (by decide)
  have strict : (ofFiles view "d" true files).failed = 1 := by decide +kernel
  have lax : (ofFiles view "d" false files).failed = 0 := by decide +kernel
  refine ⟨⟨known, by decide +kernel⟩, fun form quiet => ?_, fun form quiet => ?_⟩
  · obtain ⟨report, hrun, hcode⟩ :=
      (verdicts_agree view "d" true files).2.2 known rfl form quiet
    refine ⟨report, hrun, ?_⟩
    rw [hcode, strict]
    rfl
  · obtain ⟨report, hrun, hcode⟩ :=
      (verdicts_agree view "d" false files).2.2 known rfl form quiet
    refine ⟨report, hrun, ?_⟩
    rw [hcode, lax]
    rfl

end Lint
end ItemShape
