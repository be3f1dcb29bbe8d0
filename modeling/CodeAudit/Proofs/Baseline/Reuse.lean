import CodeAudit.Proofs.Baseline.History

namespace CodeAudit

namespace Baseline

/-- Two baselines keep the same of some findings exactly when they record the same of those that may
be dropped. -/
theorem keep_perm_keep_iff (b b' : Baseline) (fs : List Finding) :
    (b.keep fs).Perm (b'.keep fs) ↔
      ∀ f ∈ fs, f.suppressible = true → b.records f = b'.records f := by
  constructor
  · intro hperm f hf hsuppressible
    have hmem : f ∈ b.keep fs ↔ f ∈ b'.keep fs := hperm.mem_iff
    simpa [keep, hf, hsuppressible] using hmem
  · intro h
    have heq : b.keep fs = b'.keep fs := by
      apply List.filter_congr
      intro f hf
      cases hsuppressible : f.suppressible with
      | false => rfl
      | true => rw [h f hf hsuppressible]
    rw [heq]

/-! ### Ids kept by hand -/

/-- The ids kept by hand in the file at the path, unless a directory has come to be there. -/
def KeptByHand (manual : TextSet) (path : Path) (fs : FileSystem) : Prop :=
  fs.isDirectory path = false → ∃ now, load fs path = .ok now ∧ now.manual = manual

theorem KeptByHand.congr {manual : TextSet} {path : Path} {fs fs' : FileSystem}
    (h : KeptByHand manual path fs) (hfind : fs'.find path = fs.find path) :
    KeptByHand manual path fs' := by
  intro hplain
  have hbefore : fs.isDirectory path = false := by
    rw [FileSystem.isDirectory, hfind] at hplain
    exact hplain
  obtain ⟨now, hnow, hmanual⟩ := h hbefore
  exact ⟨now, (load_congr hfind).trans hnow, hmanual⟩

theorem KeptByHand.updated {manual : TextSet} {path : Path} {fs : FileSystem}
    (h : KeptByHand manual path fs) (findings : List Finding) :
    KeptByHand manual path (updated fs path findings) := by
  intro hplain
  obtain ⟨now, hnow, hmanual⟩ := h (not_isDirectory_of_updated hplain)
  obtain ⟨b, hload, hkept, -⟩ := load_updated hnow hplain
  exact ⟨b, hload, hkept.trans hmanual⟩

end Baseline

open Baseline

namespace BaselineStage

/-- The file then records the result. What the stage remembers of the file is what was there the
first time. -/
theorem of_observe {s s' : BaselineStage} {fs fs' : FileSystem} {r : AnalysisResult}
    {old : Baseline} (hcreate : s.create = true) (hload : load fs s.path = .ok old)
    (h : s.observe fs r = .ok (s', fs')) :
    load fs' s.path = .ok (recording old.manual r.findings) ∧
      s' = { s with loaded := some (s.loaded.getD (recording old.manual r.findings)) } := by
  obtain ⟨outcome, b, hupdate, hread⟩ := read_of_observe hcreate h
  have hnow : load fs' s.path = .ok (recording old.manual r.findings) :=
    load_recording hload hupdate
  refine ⟨hnow, ?_⟩
  obtain ⟨hs', hknown | ⟨hunknown, hloaded⟩⟩ := of_read hread
  · rw [hs', hknown, Option.getD_some]
  · have hb : b = recording old.manual r.findings := Except.ok.inj (hloaded.symm.trans hnow)
    rw [hs', hunknown, Option.getD_none, hb]

end BaselineStage

namespace Pipeline

/-- The pipeline with one baseline stage and hooks before and behind it. -/
def around (before : List Hook) (s : BaselineStage) (after : List Hook) : Pipeline Extension :=
  ⟨before.map Extension.hook ++ .baseline s :: after.map Extension.hook⟩

/-! ### One run -/

/-- Hooks remember nothing and touch no file. One of them refuses the result, or the stage goes on
behind them. -/
theorem observeAll_hooks (r : AnalysisResult) (hooks : List Hook) (rest : List Extension)
    (fs : FileSystem) :
    let p := observeAll r (hooks.map Extension.hook ++ rest) fs
    let q := observeAll r rest fs
    (p.extensions = hooks.map Extension.hook ++ rest ∧ p.files = fs ∧ ∃ e, p.outcome = .error e) ∨
      p.extensions = hooks.map Extension.hook ++ q.extensions ∧ p.files = q.files ∧
        p.outcome = q.outcome := by
  intro p q
  induction hooks with
  | nil => exact .inr ⟨rfl, rfl, rfl⟩
  | cons hook hooks ih =>
    simp only [p, List.map_cons, List.cons_append]
    -- The first hook that refuses ends the stage, before anything has changed.
    cases hhook : hook.observe r with
    | error e =>
      have hcall : (Extension.hook hook).observe fs r = .error e := by
        rw [Extension.observe, hhook]
        rfl
      rw [observeAll_cons_of_error hcall]
      exact .inl ⟨rfl, rfl, e, rfl⟩
    | ok _ =>
      have hcall : (Extension.hook hook).observe fs r = .ok (.hook hook, fs) := by
        rw [Extension.observe, hhook]
        rfl
      rw [observeAll_cons_of_ok hcall]
      rcases ih with ⟨hextensions, hfiles, houtcome⟩ | ⟨hextensions, hfiles, houtcome⟩
      · exact .inl ⟨congrArg _ hextensions, hfiles, houtcome⟩
      · exact .inr ⟨congrArg _ hextensions, hfiles, houtcome⟩

variable (before after : List Hook) (s : BaselineStage) (fs : FileSystem) (r : AnalysisResult)

/-- The result does not get past the stage, which then remembers no more than before, or the stage
has seen it. -/
theorem observeAll_around :
    let seen := observeAll r (around before s after).extensions fs
    (seen.extensions = (around before s after).extensions ∧
      (seen.files = fs ∨ seen.files = (Extension.baseline s).observedFiles fs r) ∧
      ∃ e, seen.outcome = .error e) ∨
    ∃ s', s.observe fs r = .ok (s', seen.files) ∧
      seen.extensions = (around before s' after).extensions := by
  intro seen
  rcases observeAll_hooks r before (.baseline s :: after.map Extension.hook) fs with
    ⟨hextensions, hfiles, herror⟩ | ⟨hextensions, hfiles, houtcome⟩
  · exact .inl ⟨hextensions, .inl hfiles, herror⟩
  cases hstage : s.observe fs r with
  | error e =>
    have hcall : (Extension.baseline s).observe fs r = .error (.baseline e) := by
      rw [Extension.observe, hstage]
    rw [observeAll_cons_of_error hcall] at hextensions hfiles houtcome
    exact .inl ⟨hextensions, .inr hfiles, _, houtcome⟩
  | ok seen' =>
    obtain ⟨s', fs'⟩ := seen'
    have hcall : (Extension.baseline s).observe fs r = .ok (.baseline s', fs') := by
      rw [Extension.observe, hstage]
    rw [observeAll_cons_of_ok hcall] at hextensions hfiles houtcome
    -- Whatever the hooks behind the stage say, they change nothing.
    have hrest :
        (observeAll r (after.map Extension.hook) fs').extensions = after.map Extension.hook ∧
        (observeAll r (after.map Extension.hook) fs').files = fs' := by
      rcases observeAll_hooks r after [] fs' with ⟨hext, hfs, -⟩ | ⟨hext, hfs, -⟩
      · rw [List.append_nil] at hext hfs
        exact ⟨hext, hfs⟩
      · rw [List.append_nil] at hext hfs
        rw [hext, hfs]
        exact ⟨List.append_nil _, rfl⟩
    refine .inr ⟨s', ?_, ?_⟩
    · rw [← hrest.2]
      exact congrArg (fun files => Except.ok (s', files)) hfiles.symm
    · refine hextensions.trans ?_
      dsimp only
      rw [hrest.1]
      rfl

theorem transform_around {b : Baseline} (hloaded : s.loaded = some b) :
    ∀ x ∈ (around before s after).extensions, ∀ r x' r', x.transform fs r = .ok (x', r') →
      x' = x := by
  intro x hx r x' r' h
  simp only [around, List.mem_append, List.mem_cons, List.mem_map] at hx
  rcases hx with ⟨hook, -, rfl⟩ | rfl | ⟨hook, -, rfl⟩
  · exact Extension.of_transform_hook h
  · have hread : s.read fs = .ok (s, b) := by rw [BaselineStage.read, hloaded]
    obtain ⟨s', hs', rfl⟩ := Extension.of_transform_baseline h
    rw [BaselineStage.transform_eq_ok hread] at hs'
    rw [(Prod.mk.inj (Except.ok.inj hs')).1]
  · exact Extension.of_transform_hook h

/-- What a run leaves: the extensions as they were, if the result did not get past the stage, or
else what the stage has made of itself. -/
theorem extensions_run_around (hcreate : s.create = true) :
    let done := (around before s after).run fs r
    done.extensions = (around before s after).extensions ∨
    ∃ s', s.observe fs r = .ok (s', done.files) ∧
      done.extensions = (around before s' after).extensions := by
  intro done
  rcases observeAll_around before after s fs r with
    ⟨hextensions, -, e, he⟩ | ⟨s', hstage, hextensions⟩
  · exact .inl ((run_of_refused he).1.trans hextensions)
  rw [← files_run] at hstage
  refine .inr ⟨s', hstage, ?_⟩
  cases houtcome : (observeAll r (around before s after).extensions fs).outcome with
  | error e => exact (run_of_refused houtcome).1.trans hextensions
  | ok _ =>
    obtain ⟨-, b, -, hread⟩ := BaselineStage.read_of_observe hcreate hstage
    have hloaded : s'.loaded = some b := by rw [(BaselineStage.of_read hread).1]
    rw [extensions_run houtcome, hextensions]
    exact extensions_transformAll (transform_around before after s' _ hloaded)

theorem files_run_around (hcreate : s.create = true) :
    let done := (around before s after).run fs r
    done.files = fs ∨ done.files = updated fs s.path r.findings := by
  intro done
  rcases observeAll_around before after s fs r with ⟨-, hfiles, -⟩ | ⟨s', hstage, -⟩
  · rw [Extension.observedFiles, if_pos hcreate, ← files_run] at hfiles
    exact hfiles
  · rw [← files_run] at hstage
    obtain ⟨outcome, -, hupdate, -⟩ := BaselineStage.read_of_observe hcreate hstage
    exact .inr (updated_of_update hupdate).symm

/-! ### Runs one after the other -/

/-- One pipeline run over results, first to last. Every run starts with the extensions as the one
before it has left them; of the files only what is at a path has to be as it was left. -/
inductive Reused (path : Path) (p : Pipeline Extension) (fs : FileSystem) :
    List AnalysisResult → Pipeline Extension → FileSystem → Prop
  | start : Reused path p fs [] p fs
  | next {rs : List AnalysisResult} {p' : Pipeline Extension} {fs' fs'' : FileSystem}
      {r : AnalysisResult}
      (earlier : Reused path p fs rs p' fs')
      (hfind : fs''.find path = (p'.run fs' r).files.find path) :
      Reused path p fs (rs ++ [r]) ⟨(p'.run fs' r).extensions⟩ fs''

/-- The first of the results that a creating stage has seen without an error: in the runs before it
the pipeline has learnt nothing. -/
def FirstSeen (path : Path) (rs : List AnalysisResult) (first : AnalysisResult) : Prop :=
  ∃ earlier later fs' seen, rs = earlier ++ first :: later ∧
    Reused path (around before { path, create := true } after) fs earlier
      (around before { path, create := true } after) fs' ∧
    BaselineStage.observe { path, create := true } fs' first = .ok seen

section Runs

variable {before after fs} {path : Path}

theorem FirstSeen.append {rs : List AnalysisResult} {first : AnalysisResult}
    (h : FirstSeen before after fs path rs first) (r : AnalysisResult) :
    FirstSeen before after fs path (rs ++ [r]) first := by
  obtain ⟨earlier, later, fs', seen, rfl, hearlier, hseen⟩ := h
  exact ⟨earlier, later ++ [r], fs', seen, by simp, hearlier, hseen⟩

/-- The ids kept by hand stay in the file, and the stage remembers what the first result that it saw
has put next to them. -/
theorem Reused.remembered {kept : Baseline} {rs : List AnalysisResult} {p' : Pipeline Extension}
    {fs' : FileSystem} (hload : load fs path = .ok kept)
    (h : Reused path (around before { path, create := true } after) fs rs p' fs') :
    KeptByHand kept.manual path fs' ∧
    ∃ loaded, p' = around before { path, create := true, loaded } after ∧
      (loaded = none ∨ ∃ first, FirstSeen before after fs path rs first ∧
        loaded = some (recording kept.manual first.findings)) := by
  induction h with
  | start => exact ⟨fun _ => ⟨kept, hload, rfl⟩, none, rfl, .inl rfl⟩
  | @next rs p' fs' fs'' r earlier hfind ih =>
    obtain ⟨hkeeps, loaded, rfl, hloaded⟩ := ih
    have hafter : KeptByHand kept.manual path fs'' := by
      -- Whatever way the run went, its file is as it was or was updated.
      rcases files_run_around before after { path, create := true, loaded } fs' r rfl with
        hfiles | hfiles
      · rw [hfiles] at hfind
        exact hkeeps.congr hfind
      · rw [hfiles] at hfind
        exact (hkeeps.updated r.findings).congr hfind
    have hkept : loaded = none ∨ ∃ first, FirstSeen before after fs path (rs ++ [r]) first ∧
        loaded = some (recording kept.manual first.findings) :=
      hloaded.imp_right fun ⟨first, hfirst, heq⟩ => ⟨first, hfirst.append r, heq⟩
    refine ⟨hafter, ?_⟩
    rcases extensions_run_around before after { path, create := true, loaded } fs' r rfl with
      hextensions | ⟨s', hstage, hextensions⟩
    · exact ⟨loaded, by rw [hextensions], hkept⟩
    -- The stage saw the result, so no directory was at the path.
    obtain ⟨outcome, -, hupdate, -⟩ :=
      BaselineStage.read_of_observe (s := { path, create := true, loaded }) rfl hstage
    obtain ⟨now, hnow, hmanual⟩ := hkeeps (not_isDirectory_of_update hupdate)
    obtain ⟨-, hs'⟩ :=
      BaselineStage.of_observe (s := { path, create := true, loaded }) rfl hnow hstage
    rw [hmanual] at hs'
    refine ⟨some (loaded.getD (recording kept.manual r.findings)),
      by rw [hextensions, hs'], .inr ?_⟩
    cases loaded with
    | none => exact ⟨r, ⟨rs, [], fs', _, rfl, earlier, hstage⟩, rfl⟩
    | some b =>
      rcases hkept with hnone | ⟨first, hseen, hfirst⟩
      · cases hnone
      · exact ⟨first, hseen, hfirst⟩

/-- In every run of a reused pipeline, what its creating stage drops is what the first result that
the stage has seen has put into the file. The file itself records the present result by then, so the
stage filters by the file exactly when the two record the same of what it is handed. -/
theorem reused_stage_filters_by_file_iff {kept : Baseline} {earlier : List AnalysisResult}
    {p' : Pipeline Extension} {fs' : FileSystem} (hload : load fs path = .ok kept)
    (history : Reused path (around before { path, create := true } after) fs earlier p' fs')
    (hseen : (observeAll r p'.extensions fs').outcome = .ok ()) (input : AnalysisResult) :
    let seen := observeAll r p'.extensions fs'
    let now := recording kept.manual r.findings
    load seen.files path = .ok now ∧
    ∃ s output first,
      seen.extensions = (around before s after).extensions ∧
      s.transform seen.files input = .ok (s, output) ∧
      FirstSeen before after fs path (earlier ++ [r]) first ∧
      output.findings.Perm ((recording kept.manual first.findings).keep input.findings) ∧
      (output.findings.Perm (now.keep input.findings) ↔
        ∀ f ∈ input.findings, f.suppressible = true →
          (recording kept.manual first.findings).records f = now.records f) := by
  obtain ⟨hkeeps, loaded, rfl, hloaded⟩ := history.remembered hload
  intro seen now
  rcases observeAll_around before after { path, create := true, loaded } fs' r with
    ⟨-, -, e, herror⟩ | ⟨s, hstage, hextensions⟩
  · cases herror.symm.trans hseen
  obtain ⟨outcome, -, hupdate, -⟩ :=
    BaselineStage.read_of_observe (s := { path, create := true, loaded }) rfl hstage
  obtain ⟨old, hold, hmanual⟩ := hkeeps (not_isDirectory_of_update hupdate)
  obtain ⟨hnow, hs⟩ :=
    BaselineStage.of_observe (s := { path, create := true, loaded }) rfl hold hstage
  rw [hmanual] at hnow hs
  -- The stage has just read the file, or it remembers what it read in an earlier run.
  obtain ⟨first, hfirst, hremembered⟩ : ∃ first,
      FirstSeen before after fs path (earlier ++ [r]) first ∧
        s.loaded = some (recording kept.manual first.findings) := by
    rcases hloaded with rfl | ⟨first, hfirst, rfl⟩
    · exact ⟨r, ⟨earlier, [], fs', _, rfl, history, hstage⟩, by rw [hs]; rfl⟩
    · exact ⟨first, hfirst.append r, by rw [hs]; rfl⟩
  have hread : s.read seen.files = .ok (s, recording kept.manual first.findings) := by
    rw [BaselineStage.read, hremembered]
  have hperm := BaselineStage.findings_apply_perm (recording kept.manual first.findings) input
  refine ⟨hnow, s, _, first, hextensions, BaselineStage.transform_eq_ok hread input, hfirst, hperm,
    ?_⟩
  rw [← keep_perm_keep_iff]
  exact ⟨hperm.symm.trans, hperm.trans⟩

end Runs

/-! ### Two runs over different findings -/

namespace TwoRuns

def result (signature : String) : AnalysisResult where
  findings := [CuratedFile.finding signature]

def files : FileSystem := { entries := [], home := ⟨""⟩ }

/-- The files after the first run. -/
def written : FileSystem :=
  CuratedFile.holding (({} : Baseline).withFindings (result "A").findings).render

def fresh : BaselineStage := { path := CuratedFile.path, create := true }

/-- The stage after the first run. -/
def used : BaselineStage := { fresh with loaded := some (recording .empty (result "A").findings) }

theorem load_files : load files fresh.path = .ok {} := load_of_absent rfl

theorem update_files : update files fresh.path (result "A").findings = .ok (written, .written) := by
  have hread : files.read fresh.path = .error .notFound := rfl
  have hstore (text : String) : store files fresh.path text = .ok (CuratedFile.holding text) := rfl
  simp only [update, load_files, hread, bind, Except.bind, hstore]
  rfl

theorem load_written : load written fresh.path = .ok (recording .empty (result "A").findings) :=
  load_recording load_files update_files

theorem run_alone {s s' : BaselineStage} {fs fs' : FileSystem} {r : AnalysisResult} {b : Baseline}
    (h : s.observe fs r = .ok (s', fs')) (hloaded : s'.loaded = some b) :
    let seen := observeAll r (around [] s []).extensions fs
    let done := (around [] s []).run fs r
    (seen.extensions = (around [] s' []).extensions ∧ seen.files = fs' ∧ seen.outcome = .ok ()) ∧
      done.extensions = (around [] s' []).extensions ∧ done.files = fs' := by
  have hcall : (Extension.baseline s).observe fs r = .ok (.baseline s', fs') := by
    rw [Extension.observe, h]
  have hseen : observeAll r (around [] s []).extensions fs =
      ⟨[.baseline s'], fs', [⟨BaselineStage.id, .observe, r⟩], .ok ()⟩ :=
    observeAll_cons_of_ok hcall []
  have houtcome : (observeAll r (around [] s []).extensions fs).outcome = .ok () := by rw [hseen]
  refine ⟨?_, ?_, ?_⟩
  · rw [hseen]
    exact ⟨rfl, rfl, rfl⟩
  · rw [extensions_run houtcome, hseen]
    exact extensions_transformAll (transform_around [] [] s' fs' hloaded)
  · rw [files_run, hseen]

theorem observe_fresh : fresh.observe files (result "A") = .ok (used, written) :=
  BaselineStage.observe_eq_ok rfl update_files load_written

/-- The file of the first run can be updated, and the stage does not read it again. -/
theorem observe_used : ∃ fs, used.observe written (result "B") = .ok (used, fs) := by
  have hexists : written.exists? fresh.path = true := rfl
  obtain ⟨⟨fs, outcome⟩, hupdate⟩ := exists_update hexists load_written (result "B").findings
  have hload := load_recording load_written hupdate
  exact ⟨fs, BaselineStage.observe_eq_ok rfl hupdate hload⟩

theorem reused_used :
    Reused fresh.path (around [] fresh []) files [result "A"] (around [] used []) written := by
  obtain ⟨-, hextensions, hfiles⟩ := run_alone observe_fresh rfl
  have hnext : Reused fresh.path (around [] fresh []) files ([] ++ [result "A"])
      ⟨((around [] fresh []).run files (result "A")).extensions⟩ written :=
    .next .start (by rw [hfiles])
  rw [hextensions] at hnext
  exact hnext

theorem findings_of_transform_used {fs : FileSystem} {output : AnalysisResult}
    (h : used.transform fs (result "B") = .ok (used, output)) :
    output.findings = (result "B").findings := by
  have hread : used.read fs = .ok (used, recording .empty (result "A").findings) := rfl
  rw [BaselineStage.transform_eq_ok hread] at h
  rw [← (Prod.mk.inj (Except.ok.inj h)).2]
  decide +kernel

end TwoRuns

open TwoRuns in
/-- The second run makes the file record its finding, and keeps that finding all the same. -/
theorem second_run_keeps_recorded_finding :
    Reused fresh.path (around [] fresh []) files [result "A"] (around [] used []) written ∧
    ∃ fs output, used.observe written (result "B") = .ok (used, fs) ∧
      (∃ now, load fs fresh.path = .ok now ∧ now.keep (result "B").findings = []) ∧
      used.transform fs (result "B") = .ok (used, output) ∧
      output.findings = (result "B").findings := by
  obtain ⟨fs, hobserve⟩ := observe_used
  obtain ⟨⟨hextensions, hfiles, hseen⟩, -⟩ := run_alone hobserve rfl
  obtain ⟨hnow, s, output, -, hs, htransform, -⟩ :=
    reused_stage_filters_by_file_iff (result "B") load_files reused_used hseen (result "B")
  rw [hfiles] at hnow htransform
  have hused : s = used := by simpa [around] using hs.symm.trans hextensions
  rw [hused] at htransform
  have hrecorded : (recording ({} : Baseline).manual (result "B").findings).keep
      (result "B").findings = [] := by
    decide +kernel
  exact ⟨reused_used, fs, output, hobserve, ⟨_, hnow, hrecorded⟩, htransform,
    findings_of_transform_used htransform⟩

end Pipeline

end CodeAudit
