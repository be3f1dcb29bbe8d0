import CodeAudit.Proofs.Baseline.Reuse
import CodeAudit.Proofs.Engine.Conservation
import CodeAudit.Proofs.Pipeline.Trace
import CodeAudit.Regex.Language
import CodeAudit.Run.Basic

namespace CodeAudit

namespace Extension

/-- Whether the extension writes files of its own. -/
def writesFiles : Extension → Bool
  | hook _ => false
  | baseline s => s.create

theorem observedFiles_of_reads {x : Extension} (h : x.writesFiles = false) (fs : FileSystem)
    (r : AnalysisResult) : x.observedFiles fs r = fs := by
  cases x with
  | hook _ => rfl
  | baseline s => rw [observedFiles, show s.create = false from h]; rfl

end Extension

/-! ### Whole runs -/

namespace Run

variable {run : Run} {fs : FileSystem} {trees : List Tree}

theorem mem_extensions_pipeline {x : Extension} :
    x ∈ run.pipeline.extensions ↔
      (∃ path, run.options.baseline = some path ∧
        x = .baseline { path, create := run.options.createBaseline }) ∨ x ∈ run.extensions := by
  rw [pipeline, Pipeline.extensions_ofList, (Ordered.sortBy_perm _ _).mem_iff, List.mem_append,
    Option.mem_toList, Option.map_eq_some_iff]
  simp only [eq_comm (a := x)]

theorem engine_eq_error [PatternLanguage] {e : RunError}
    (h : (run.execute fs trees).outcome = .error e) (he : ∀ cause, e ≠ .extension cause) :
    run.engine fs = .error e := by
  unfold execute at h
  split at h
  next hengine =>
    obtain rfl := Except.error.inj h
    exact hengine
  next =>
    dsimp only at h
    split at h
    next cause _ => exact absurd (Except.error.inj h).symm (he cause)
    next => cases h

theorem execute_of_error [PatternLanguage] {e : RunError} (h : run.engine fs = .error e)
    (trees : List Tree) :
    run.execute fs trees = { files := fs, visits := [], calls := [], outcome := .error e } := by
  rw [execute, h]

theorem files_execute [PatternLanguage] (run : Run) (fs : FileSystem) (trees : List Tree) :
    (run.execute fs trees).files = fs ∨
      ∃ r, (run.execute fs trees).files =
        (Pipeline.observeAll r run.pipeline.extensions fs).files := by
  unfold execute
  split
  next => exact .inl rfl
  next engine _ => exact .inr ⟨engine.analyze trees, Pipeline.files_run ..⟩

theorem files_of_reads (hextensions : ∀ x ∈ run.extensions, x.writesFiles = false)
    (h : run.options.createBaseline = false ∨ run.options.baseline = none) (r : AnalysisResult)
    (fs : FileSystem) : (Pipeline.observeAll r run.pipeline.extensions fs).files = fs := by
  symm
  refine Pipeline.files_observeAll_induction (R := Eq) (fun _ => rfl) Eq.trans ?_ fs
  intro x hx fs
  refine (Extension.observedFiles_of_reads ?_ fs r).symm
  rcases mem_extensions_pipeline.mp hx with ⟨path, hpath, rfl⟩ | hx
  · rcases h with h | h
    · exact h
    · simp [h] at hpath
  · exact hextensions x hx

theorem confined_files (hextensions : ∀ x ∈ run.extensions, x.writesFiles = false)
    {path : Path} (hpath : run.options.baseline = some path) (r : AnalysisResult)
    (fs : FileSystem) :
    fs.Confined (· ∈ path.directories) (path.place? = some ·)
      (Pipeline.observeAll r run.pipeline.extensions fs).files := by
  refine Pipeline.files_observeAll_induction (fun fs => .refl fs) (fun h h' => h.trans h') ?_ fs
  intro x hx fs
  rcases mem_extensions_pipeline.mp hx with ⟨path', hpath', rfl⟩ | hx
  · obtain rfl := Option.some.inj (hpath.symm.trans hpath')
    rw [Extension.observedFiles]
    split
    next => exact Baseline.confined_updated fs path r.findings
    next => exact .refl fs
  · rw [Extension.observedFiles_of_reads (hextensions x hx)]
    exact .refl fs

end Run

/-- A run that is refused, which is one with any error but that of an extension, leaves the files as
they were: no rule has looked at a tree, no extension was called, and the trees make no difference.
However a run ends, the files are as they were unless a baseline is to be created. Then all that
changes is the file at the path of the baseline, and directories on the way to it that were
missing. -/
theorem refused_run_changes_nothing [PatternLanguage] {run : Run}
    (hextensions : ∀ x ∈ run.extensions, x.writesFiles = false) (fs : FileSystem)
    (trees : List Tree) :
    (∀ e, (run.execute fs trees).outcome = .error e → (∀ cause, e ≠ .extension cause) →
      (run.execute fs trees).files = fs ∧ (run.execute fs trees).visits = [] ∧
        (run.execute fs trees).calls = [] ∧
        ∀ trees', run.execute fs trees' = run.execute fs trees) ∧
    ((run.execute fs trees).files = fs ∨
      run.options.createBaseline = true ∧ ∃ path, run.options.baseline = some path ∧
        fs.Confined (· ∈ path.directories) (path.place? = some ·)
          (run.execute fs trees).files) := by
  constructor
  · intro e herror he
    have hrefused := Run.execute_of_error (Run.engine_eq_error herror he)
    rw [hrefused trees]
    exact ⟨rfl, rfl, rfl, hrefused⟩
  · rcases run.files_execute fs trees with hsame | ⟨r, hfiles⟩
    · exact .inl hsame
    rw [hfiles]
    cases hcreate : run.options.createBaseline with
    | false => exact .inl (Run.files_of_reads hextensions (.inl hcreate) r fs)
    | true =>
      cases hpath : run.options.baseline with
      | none => exact .inl (Run.files_of_reads hextensions (.inr hpath) r fs)
      | some path =>
        exact .inr ⟨rfl, path, rfl, Run.confined_files hextensions hpath r fs⟩

/-! ### Two runs that fail -/

namespace FailingRuns

def files : FileSystem where
  entries := [(["b.xml"], .file "<Baseline/>")]
  home := ⟨"~"⟩

def options : RunOptions where
  defaultConfig := false
  overrides := [(["config", "validation"], .bool false)]
  baseline := some ⟨"b.xml"⟩
  createBaseline := true
  discovery := { withoutDefaults := true }

/-- An extension that refuses every result. -/
def refusal : Extension :=
  .hook { id := "refusal", observe := fun _ => .error (.failed "refusal" "never") }

/-- A run that its extension ends when the baseline has been written. -/
def late : Run := { options, extensions := [refusal] }

/-- A run that is refused for a rule set that is not there. -/
def early : Run :=
  { options := { options with restriction := .single "naming" "Other" }, extensions := [refusal] }

theorem outcome_early (trees : List Tree) :
    (early.execute files trees).outcome = .error (.config (.unknownRuleSet "naming")) := rfl

/-- The files with the baseline written anew. -/
def rewritten : FileSystem := { files with entries := [(["b.xml"], .file ({} : Baseline).render)] }

theorem load_files : Baseline.load files ⟨"b.xml"⟩ = .ok {} := by
  have hread : files.read ⟨"b.xml"⟩ = .ok "<Baseline/>" := rfl
  have hparse : Baseline.parse "<Baseline/>" = .ok {} := by decide +kernel
  rw [Baseline.load_of_read hread, hparse]
  rfl

theorem update_files : Baseline.update files ⟨"b.xml"⟩ [] = .ok (rewritten, .written) := by
  simp only [Baseline.update, load_files]
  rfl

theorem load_rewritten : Baseline.load rewritten ⟨"b.xml"⟩ = .ok {} := by
  have hread : rewritten.read ⟨"b.xml"⟩ = .ok ({} : Baseline).render := rfl
  rw [Baseline.load_of_read_render hread]
  rfl

def stage : BaselineStage := { path := ⟨"b.xml"⟩, create := true }

def engine : Engine := { collectors := Collector.defaults }

theorem engine_late : late.engine files = .ok engine := rfl

theorem extensions_late : late.pipeline.extensions = [.baseline stage, refusal] := by
  change (Pipeline.ofList [.baseline stage, refusal]).extensions = _
  rw [Pipeline.extensions_ofList]
  exact Ordered.sortBy_of_ascending _ (List.pairwise_pair.mpr rfl)

theorem findings_engine : (engine.analyze []).findings = [] :=
  List.perm_nil.mp (engine.findings_analyze_perm [])

theorem observe_stage : (Extension.baseline stage).observe files (engine.analyze []) =
    .ok (.baseline { stage with loaded := some {} }, rewritten) := by
  have hupdate : Baseline.update files stage.path (engine.analyze []).findings =
      .ok (rewritten, .written) := by
    rw [findings_engine]
    exact update_files
  rw [Extension.observe, BaselineStage.observe_eq_ok rfl hupdate load_rewritten]
  rfl

theorem observe_late :
    let seen := Pipeline.observeAll (engine.analyze []) late.pipeline.extensions files
    seen.outcome = .error (.failed "refusal" "never") ∧ seen.files = rewritten := by
  rw [extensions_late, Pipeline.observeAll_cons_of_ok observe_stage]
  exact ⟨rfl, rfl⟩

theorem outcome_late :
    (late.execute files []).outcome = .error (.extension (.failed "refusal" "never")) := by
  rw [Run.execute, engine_late]
  simp only [(Pipeline.run_of_refused observe_late.1).2]

theorem files_late : (late.execute files []).files = rewritten := by
  rw [Run.execute, engine_late]
  exact (Pipeline.files_run ..).trans observe_late.2

end FailingRuns

open FailingRuns in
/-- Only the run that got as far as its extensions has rewritten the baseline. -/
theorem refused_run_changes_nothing_early_and_late :
    (∀ x ∈ early.extensions, x.writesFiles = false) ∧
    (early.execute files []).outcome = .error (.config (.unknownRuleSet "naming")) ∧
    (early.execute files []).files = files ∧ (early.execute files []).visits = [] ∧
    (late.execute files []).outcome = .error (.extension (.failed "refusal" "never")) ∧
    (late.execute files []).files = rewritten ∧ files ≠ rewritten ∧
    files.Confined (· ∈ [[]]) (some ["b.xml"] = some ·) (late.execute files []).files := by
  have hreads : ∀ x ∈ [refusal], x.writesFiles = false := by simp [refusal, Extension.writesFiles]
  have hnew : files ≠ rewritten := by
    intro h
    have hentry : files.entry? ["b.xml"] = rewritten.entry? ["b.xml"] := by rw [← h]
    exact absurd hentry (by decide)
  obtain ⟨hrefused, -⟩ := @refused_run_changes_nothing _ early hreads files []
  obtain ⟨hfiles, hvisits, -⟩ := hrefused _ (outcome_early []) (by simp)
  obtain ⟨-, hsame | ⟨-, path, hpath, hconfined⟩⟩ :=
    @refused_run_changes_nothing _ late hreads files []
  · exact absurd (hsame.symm.trans files_late) hnew
  · obtain rfl := Option.some.inj hpath
    exact ⟨hreads, outcome_early [], hfiles, hvisits, outcome_late, files_late, hnew, hconfined⟩

end CodeAudit
