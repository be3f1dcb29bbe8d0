import CodeAudit.Proofs.Baseline.Stage

namespace CodeAudit

namespace Extension

variable {x x' : Extension} {fs fs' : FileSystem} {r r' : AnalysisResult} {e : ExtensionError}

theorem staged_observe_of_ok (h : x.observe fs r = .ok (x', fs')) :
    Staged.observe r x fs = (.ok (), x', fs') := by
  simp only [Staged.observe, h]

theorem staged_observe_of_error (h : x.observe fs r = .error e) :
    Staged.observe r x fs = (.error e, x, x.observedFiles fs r) := by
  simp only [Staged.observe, h]

theorem staged_transform_of_ok (h : x.transform fs r = .ok (x', r')) :
    Staged.transform r x fs = (.ok r', x', fs) := by
  simp only [Staged.transform, h]

theorem staged_transform_of_error (h : x.transform fs r = .error e) :
    Staged.transform r x fs = (.error e, x, fs) := by
  simp only [Staged.transform, h]

/-! ### What a call makes of an extension -/

theorem of_observe_hook {h : Hook} (hcall : (hook h).observe fs r = .ok (x', fs')) :
    x' = .hook h ∧ fs' = fs := by
  obtain ⟨-, -, heq⟩ := Success.of_map hcall
  exact ⟨(Prod.mk.inj heq).1.symm, (Prod.mk.inj heq).2.symm⟩

theorem of_observe_baseline {s : BaselineStage} (h : (baseline s).observe fs r = .ok (x', fs')) :
    ∃ s', s.observe fs r = .ok (s', fs') ∧ x' = .baseline s' := by
  simp only [observe] at h
  split at h
  next s' seen hobserve =>
    obtain ⟨rfl, rfl⟩ := Prod.mk.inj (Except.ok.inj h)
    exact ⟨s', hobserve, rfl⟩
  next => cases h

theorem of_transform_hook {h : Hook} (hcall : (hook h).transform fs r = .ok (x', r')) :
    x' = .hook h := by
  obtain ⟨_, -, heq⟩ := Success.of_map hcall
  exact (Prod.mk.inj heq).1.symm

theorem of_transform_baseline {s : BaselineStage}
    (h : (baseline s).transform fs r = .ok (x', r')) :
    ∃ s', s.transform fs r = .ok (s', r') ∧ x' = .baseline s' := by
  simp only [transform] at h
  split at h
  next s' changed htransform =>
    obtain ⟨rfl, rfl⟩ := Prod.mk.inj (Except.ok.inj h)
    exact ⟨s', htransform, rfl⟩
  next => cases h

theorem observedFiles_of_observe (h : x.observe fs r = .ok (x', fs')) :
    x.observedFiles fs r = fs' := by
  cases x with
  | hook hook => exact (of_observe_hook h).2.symm
  | baseline s =>
    obtain ⟨s', hobserve, -⟩ := of_observe_baseline h
    exact (BaselineStage.files_of_observe hobserve).symm

theorem id_of_observe (h : x.observe fs r = .ok (x', fs')) : x'.id = x.id := by
  cases x with
  | hook hook => rw [(of_observe_hook h).1]
  | baseline s =>
    obtain ⟨s', -, rfl⟩ := of_observe_baseline h
    rfl

theorem id_of_transform (h : x.transform fs r = .ok (x', r')) : x'.id = x.id := by
  cases x with
  | hook hook => rw [of_transform_hook h]
  | baseline s =>
    obtain ⟨s', -, rfl⟩ := of_transform_baseline h
    rfl

end Extension

namespace Pipeline

variable {x x' : Extension} {fs fs' : FileSystem} {r r' : AnalysisResult} {e : ExtensionError}

theorem extensions_singleton (x : Extension) : (ofList [x]).extensions = [x] := by
  simp [ofList, register]

/-! ### The first call of a stage -/

theorem observeAll_cons_of_ok (h : x.observe fs r = .ok (x', fs')) (rest : List Extension) :
    observeAll r (x :: rest) fs =
      let p := observeAll r rest fs'
      { p with
        extensions := x' :: p.extensions
        calls := ⟨x.id, .observe, r⟩ :: p.calls } := by
  simp only [observeAll, Extension.staged_observe_of_ok h]
  rfl

theorem observeAll_cons_of_error (h : x.observe fs r = .error e) (rest : List Extension) :
    observeAll r (x :: rest) fs =
      ⟨x :: rest, x.observedFiles fs r, [⟨x.id, .observe, r⟩], .error e⟩ := by
  simp only [observeAll, Extension.staged_observe_of_error h]
  rfl

theorem transformAll_cons_of_ok (h : x.transform fs r = .ok (x', r')) (rest : List Extension) :
    transformAll r (x :: rest) fs =
      let p := transformAll r' rest fs
      { p with
        extensions := x' :: p.extensions
        calls := ⟨x.id, .transform, r⟩ :: p.calls } := by
  simp only [transformAll, Extension.staged_transform_of_ok h]
  rfl

theorem transformAll_cons_of_error (h : x.transform fs r = .error e) (rest : List Extension) :
    transformAll r (x :: rest) fs = ⟨x :: rest, fs, [⟨x.id, .transform, r⟩], .error e⟩ := by
  simp only [transformAll, Extension.staged_transform_of_error h]
  rfl

/-! ### What a stage leaves -/

theorem files_observeAll_induction {R : FileSystem → FileSystem → Prop} (hrefl : ∀ fs, R fs fs)
    (htrans : ∀ {fs fs' fs''}, R fs fs' → R fs' fs'' → R fs fs'') {xs : List Extension}
    (hstep : ∀ x ∈ xs, ∀ fs, R fs (x.observedFiles fs r)) (fs : FileSystem) :
    R fs (observeAll r xs fs).files := by
  induction xs generalizing fs with
  | nil => exact hrefl fs
  | cons x rest ih =>
    obtain ⟨hx, hrest⟩ := List.forall_mem_cons.mp hstep
    cases hobserve : x.observe fs r with
    | error e =>
      rw [observeAll_cons_of_error hobserve]
      exact hx fs
    | ok seen =>
      have hfirst := hx fs
      rw [Extension.observedFiles_of_observe hobserve] at hfirst
      rw [observeAll_cons_of_ok hobserve]
      exact htrans hfirst (ih hrest seen.2)

theorem files_transformAll (r : AnalysisResult) (xs : List Extension) (fs : FileSystem) :
    (transformAll r xs fs).files = fs := by
  induction xs generalizing r with
  | nil => rfl
  | cons x xs ih =>
    cases h : x.transform fs r with
    | error e => rw [transformAll_cons_of_error h]
    | ok changed =>
      rw [transformAll_cons_of_ok h]
      exact ih changed.2

/-- Changing a result teaches no extension anything if it teaches none of them on its own. -/
theorem extensions_transformAll {xs : List Extension}
    (h : ∀ x ∈ xs, ∀ r x' r', x.transform fs r = .ok (x', r') → x' = x) :
    (transformAll r xs fs).extensions = xs := by
  induction xs generalizing r with
  | nil => rfl
  | cons x xs ih =>
    cases hx : x.transform fs r with
    | error e => rw [transformAll_cons_of_error hx]
    | ok changed =>
      have hsame : changed.1 = x := h x (by simp) r changed.1 changed.2 hx
      have hrest : (transformAll changed.2 xs fs).extensions = xs :=
        ih fun y hy => h y (List.mem_cons_of_mem _ hy)
      rw [transformAll_cons_of_ok hx, hsame]
      exact congrArg (x :: ·) hrest

theorem finalAll_eq (r : AnalysisResult) (xs : List Extension) (fs : FileSystem) :
    finalAll r xs fs = ⟨xs, fs, xs.map fun x => ⟨x.id, .final, r⟩, .ok ()⟩ := by
  induction xs with
  | nil => rfl
  | cons x xs ih =>
    have hcall : Staged.final r x fs = (x, fs) := rfl
    simp only [finalAll, hcall, ih]
    rfl

theorem map_id_observeAll (r : AnalysisResult) (xs : List Extension) (fs : FileSystem) :
    (observeAll r xs fs).extensions.map Extension.id = xs.map Extension.id := by
  induction xs generalizing fs with
  | nil => rfl
  | cons x xs ih =>
    cases h : x.observe fs r with
    | error e => rw [observeAll_cons_of_error h]
    | ok seen =>
      rw [observeAll_cons_of_ok h, List.map_cons, List.map_cons, ih, Extension.id_of_observe h]

theorem map_id_transformAll (r : AnalysisResult) (xs : List Extension) (fs : FileSystem) :
    (transformAll r xs fs).extensions.map Extension.id = xs.map Extension.id := by
  induction xs generalizing r with
  | nil => rfl
  | cons x xs ih =>
    cases h : x.transform fs r with
    | error e => rw [transformAll_cons_of_error h]
    | ok changed =>
      rw [transformAll_cons_of_ok h, List.map_cons, List.map_cons, ih, Extension.id_of_transform h]

/-! ### Whole runs -/

theorem run_of_refused {p : Pipeline Extension}
    (h : (observeAll r p.extensions fs).outcome = .error e) :
    (p.run fs r).extensions = (observeAll r p.extensions fs).extensions ∧
      (p.run fs r).outcome = .error e := by
  simp only [run, h, and_self]

theorem files_run (p : Pipeline Extension) (fs : FileSystem) (r : AnalysisResult) :
    (p.run fs r).files = (observeAll r p.extensions fs).files := by
  unfold run
  dsimp only
  split
  next => rfl
  next =>
    split
    next => exact files_transformAll ..
    next =>
      rw [finalAll_eq]
      exact files_transformAll ..

theorem extensions_run {p : Pipeline Extension}
    (h : (observeAll r p.extensions fs).outcome = .ok ()) :
    (p.run fs r).extensions =
      (transformAll r (observeAll r p.extensions fs).extensions
        (observeAll r p.extensions fs).files).extensions := by
  simp only [run, h]
  split
  next => rfl
  next => rw [finalAll_eq]

theorem ids_run (p : Pipeline Extension) (fs : FileSystem) (r : AnalysisResult) :
    (p.run fs r).extensions.map Extension.id = p.ids := by
  have hseen := map_id_observeAll r p.extensions fs
  cases h : (observeAll r p.extensions fs).outcome with
  | error e =>
    rw [(run_of_refused h).1]
    exact hseen
  | ok _ =>
    rw [extensions_run h, map_id_transformAll]
    exact hseen

end Pipeline

end CodeAudit
