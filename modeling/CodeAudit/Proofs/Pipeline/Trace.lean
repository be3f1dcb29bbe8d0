import CodeAudit.Pipeline.Basic
import CodeAudit.Proofs.Ordered.StableSort
import Mathlib.Data.List.Induction

namespace CodeAudit.Pipeline

open Ordered

variable {X W : Type} [Staged X W]

/-! ### The order of the extensions -/

def byPriority (a b : X) : Ordering := compare (Staged.priority a) (Staged.priority b)

instance : Std.TransCmp (byPriority : X → X → Ordering) := transCmp_on Staged.priority compare

theorem extensions_register (p : Pipeline X) (x : X) :
    (p.register x).extensions = sortBy byPriority (p.extensions ++ [x]) := by
  have hle : (fun a b : X => decide (Staged.priority a ≤ Staged.priority b)) =
      fun a b => (byPriority a b).isLE := by
    funext a b
    rw [Bool.eq_iff_iff, decide_eq_true_iff]
    exact Int.isLE_compare.symm
  rw [register, sortBy, hle]

theorem extensions_ofList (xs : List X) : (ofList xs).extensions = sortBy byPriority xs := by
  induction xs using List.reverseRecOn with
  | nil => simp [ofList, sortBy]
  | append_singleton xs x ih =>
    have hlast : ofList (xs ++ [x]) = (ofList xs).register x := List.foldl_append ..
    rw [hlast, extensions_register, ih, sortBy_append_sortBy]

theorem filter_priority_sortBy (xs : List X) (k : Int) :
    (sortBy byPriority xs).filter (Staged.priority · = k) =
      xs.filter (Staged.priority · = k) := by
  rw [filter_sortBy]
  apply List.mergeSort_of_pairwise
  apply List.Pairwise.imp_of_mem (p := List.pairwise_of_forall fun _ _ => trivial)
  intro a b ha hb _
  have hpriorities : Staged.priority a = k ∧ Staged.priority b = k :=
    ⟨by simpa using (List.mem_filter.mp ha).2, by simpa using (List.mem_filter.mp hb).2⟩
  simp [byPriority, hpriorities]

/-! ### Stages without a failure -/

/-- All extensions were shown a result, one after the other. They and the files are given as they
were before and as they are afterwards. -/
inductive Observed (r : AnalysisResult) : List X → W → List X → W → Prop
  | nil {w : W} : Observed r [] w [] w
  | cons {x x' : X} {xs xs' : List X} {w w' w'' : W}
      (call : Staged.observe r x w = (.ok (), x', w')) (later : Observed r xs w' xs' w'') :
      Observed r (x :: xs) w (x' :: xs') w''

/-- All extensions have changed a result, one after the other: each was given what the one before it
made of it, which is listed, and the last result is what came out. -/
inductive Transformed :
    AnalysisResult → List X → W → List AnalysisResult → List X → W → AnalysisResult → Prop
  | nil {r : AnalysisResult} {w : W} : Transformed r [] w [] [] w r
  | cons {x x' : X} {xs xs' : List X} {w w' w'' : W} {r r' last : AnalysisResult}
      {inputs : List AnalysisResult} (call : Staged.transform r x w = (.ok r', x', w'))
      (later : Transformed r' xs w' inputs xs' w'' last) :
      Transformed r (x :: xs) w (r :: inputs) (x' :: xs') w'' last

/-- All extensions were shown the last result, one after the other. -/
inductive Finished (last : AnalysisResult) : List X → W → List X → W → Prop
  | nil {w : W} : Finished last [] w [] w
  | cons {x x' : X} {xs xs' : List X} {w w' w'' : W}
      (call : Staged.final last x w = (x', w')) (later : Finished last xs w' xs' w'') :
      Finished last (x :: xs) w (x' :: xs') w''

/-- The calls that show the same result to these extensions. -/
def shown (stage : Stage) (r : AnalysisResult) (xs : List X) : List Call :=
  xs.map fun x => ⟨Staged.id x, stage, r⟩

/-- The calls that let these extensions change one result each. -/
def handed (xs : List X) (inputs : List AnalysisResult) : List Call :=
  List.zipWith (fun x r => ⟨Staged.id x, .transform, r⟩) xs inputs

/-- How a run over a result goes: through all the stages; or up to a call that shows an extension
the unchanged result, and fails; or up to a call that lets an extension change the result, and
fails. -/
inductive Trace (w : W) (r : AnalysisResult) (xs : List X) : Progress X W AnalysisResult → Prop
  | complete {xs₁ xs₂ xs₃ : List X} {w₁ w₂ w₃ : W} {inputs : List AnalysisResult}
      {last : AnalysisResult} (seen : Observed r xs w xs₁ w₁)
      (changed : Transformed r xs₁ w₁ inputs xs₂ w₂ last) (ended : Finished last xs₂ w₂ xs₃ w₃) :
      Trace w r xs {
        extensions := xs₃
        files := w₃
        calls := shown .observe r xs ++ handed xs₁ inputs ++ shown .final last xs₂
        outcome := .ok last }
  | refused {done done₁ rest : List X} {x x' : X} {w₁ w₂ : W} {e : ExtensionError}
      (split : xs = done ++ x :: rest) (seen : Observed r done w done₁ w₁)
      (failure : Staged.observe r x w₁ = (.error e, x', w₂)) :
      Trace w r xs {
        extensions := done₁ ++ x' :: rest
        files := w₂
        calls := shown .observe r (done ++ [x])
        outcome := .error e }
  | failed {done done₁ rest : List X} {x x' : X} {w₁ w₂ w₃ : W} {inputs : List AnalysisResult}
      {current : AnalysisResult} {e : ExtensionError}
      (seen : Observed r xs w (done ++ x :: rest) w₁)
      (changed : Transformed r done w₁ inputs done₁ w₂ current)
      (failure : Staged.transform current x w₂ = (.error e, x', w₃)) :
      Trace w r xs {
        extensions := done₁ ++ x' :: rest
        files := w₃
        calls := shown .observe r xs ++ handed (done ++ [x]) (inputs ++ [current])
        outcome := .error e }

section Stages

variable {r last : AnalysisResult} {x x' : X} {xs xs' : List X} {w w' w'' : W}
  {inputs : List AnalysisResult} {e : ExtensionError}

theorem Transformed.length_inputs (h : Transformed r xs w inputs xs' w' last) :
    xs.length = inputs.length := by
  induction h with
  | nil => rfl
  | cons call later ih => rw [List.length_cons, List.length_cons, ih]

theorem Observed.observeAll_append (h : Observed r xs w xs' w') (rest : List X) :
    observeAll r (xs ++ rest) w =
      let p := observeAll r rest w'
      { p with
        extensions := xs' ++ p.extensions
        calls := shown .observe r xs ++ p.calls } := by
  induction h with
  | nil => rfl
  | cons call later ih =>
    simp only [List.cons_append, observeAll, call, ih]
    rfl

theorem Transformed.transformAll_append (h : Transformed r xs w inputs xs' w' last)
    (rest : List X) :
    transformAll r (xs ++ rest) w =
      let p := transformAll last rest w'
      { p with
        extensions := xs' ++ p.extensions
        calls := handed xs inputs ++ p.calls } := by
  induction h with
  | nil => rfl
  | cons call later ih =>
    simp only [List.cons_append, transformAll, call, ih]
    rfl

/-! ### Where a stage ends -/

theorem Observed.observeAll_eq (h : Observed r xs w xs' w') :
    observeAll r xs w = ⟨xs', w', shown .observe r xs, .ok ()⟩ := by
  have hall := h.observeAll_append []
  simpa [observeAll] using hall

theorem Transformed.transformAll_eq (h : Transformed r xs w inputs xs' w' last) :
    transformAll r xs w = ⟨xs', w', handed xs inputs, .ok last⟩ := by
  have hall := h.transformAll_append []
  simpa [transformAll] using hall

theorem Finished.finalAll_eq (h : Finished last xs w xs' w') :
    finalAll last xs w = ⟨xs', w', shown .final last xs, .ok ()⟩ := by
  induction h with
  | nil => rfl
  | cons call later ih =>
    simp only [finalAll, call, ih]
    rfl

theorem Observed.observeAll_of_error (h : Observed r xs w xs' w')
    (failure : Staged.observe r x w' = (.error e, x', w'')) (rest : List X) :
    observeAll r (xs ++ x :: rest) w =
      ⟨xs' ++ x' :: rest, w'', shown .observe r (xs ++ [x]), .error e⟩ := by
  have hlast : observeAll r (x :: rest) w' =
      ⟨x' :: rest, w'', shown .observe r [x], .error e⟩ := by
    simp only [observeAll, failure]
    rfl
  rw [h.observeAll_append, hlast, shown, shown, shown, List.map_append]

theorem Transformed.transformAll_of_error (h : Transformed r xs w inputs xs' w' last)
    (failure : Staged.transform last x w' = (.error e, x', w'')) (rest : List X) :
    transformAll r (xs ++ x :: rest) w =
      ⟨xs' ++ x' :: rest, w'', handed (xs ++ [x]) (inputs ++ [last]), .error e⟩ := by
  have hlast : transformAll last (x :: rest) w' =
      ⟨x' :: rest, w'', handed [x] [last], .error e⟩ := by
    simp only [transformAll, failure]
    rfl
  rw [h.transformAll_append, hlast, handed, handed, handed, List.zipWith_append h.length_inputs]

theorem observed_or_refused (r : AnalysisResult) (xs : List X) (w : W) :
    (∃ xs' w', Observed r xs w xs' w') ∨
      ∃ done x rest done' x' w' w'' e, xs = done ++ x :: rest ∧ Observed r done w done' w' ∧
        Staged.observe r x w' = (.error e, x', w'') := by
  induction xs generalizing w with
  | nil => exact .inl ⟨[], w, .nil⟩
  | cons x xs ih =>
    match hx : Staged.observe r x w with
    | (.error e, x', w') => exact .inr ⟨[], x, xs, [], x', w, w', e, rfl, .nil, hx⟩
    | (.ok (), x', w') =>
      rcases ih w' with ⟨xs', w'', h⟩ | ⟨done, y, rest, done', y', w₁, w₂, e, rfl, h, hy⟩
      · exact .inl ⟨_, _, .cons hx h⟩
      · exact .inr ⟨x :: done, y, rest, _, y', _, w₂, e, rfl, .cons hx h, hy⟩

theorem transformed_or_failed (r : AnalysisResult) (xs : List X) (w : W) :
    (∃ inputs xs' w' last, Transformed r xs w inputs xs' w' last) ∨
      ∃ done x rest inputs done' x' w' w'' current e, xs = done ++ x :: rest ∧
        Transformed r done w inputs done' w' current ∧
          Staged.transform current x w' = (.error e, x', w'') := by
  induction xs generalizing r w with
  | nil => exact .inl ⟨[], [], w, r, .nil⟩
  | cons x xs ih =>
    match hx : Staged.transform r x w with
    | (.error e, x', w') => exact .inr ⟨[], x, xs, [], [], x', w, w', r, e, rfl, .nil, hx⟩
    | (.ok r', x', w') =>
      rcases ih r' w' with ⟨inputs, xs', w'', last, h⟩ |
        ⟨done, y, rest, inputs, done', y', w₁, w₂, c, e, rfl, h, hy⟩
      · exact .inl ⟨_, _, _, _, .cons hx h⟩
      · exact .inr ⟨x :: done, y, rest, _, _, y', _, w₂, _, e, rfl, .cons hx h, hy⟩

theorem exists_finished (last : AnalysisResult) (xs : List X) (w : W) :
    ∃ xs' w', Finished last xs w xs' w' := by
  induction xs generalizing w with
  | nil => exact ⟨[], w, .nil⟩
  | cons x xs ih =>
    obtain ⟨xs', w'', h⟩ := ih (Staged.final last x w).2
    exact ⟨_, w'', .cons rfl h⟩

end Stages

/-! ### Whole runs -/

theorem exists_trace (w : W) (r : AnalysisResult) (xs : List X) :
    ∃ progress, Trace w r xs progress := by
  rcases observed_or_refused r xs w with ⟨xs₁, w₁, seen⟩ |
    ⟨done, x, rest, done₁, x', w₁, w₂, e, split, seen, failure⟩
  · rcases transformed_or_failed r xs₁ w₁ with ⟨inputs, xs₂, w₂, last, changed⟩ |
      ⟨done, x, rest, inputs, done₁, x', w₂, w₃, current, e, rfl, changed, failure⟩
    · obtain ⟨xs₃, w₃, ended⟩ := exists_finished last xs₂ w₂
      exact ⟨_, .complete seen changed ended⟩
    · exact ⟨_, .failed seen changed failure⟩
  · exact ⟨_, .refused split seen failure⟩

theorem run_eq_of_trace {p : Pipeline X} {w : W} {r : AnalysisResult}
    {progress : Progress X W AnalysisResult} (h : Trace w r p.extensions progress) :
    p.run w r = progress := by
  cases h with
  | complete seen changed ended =>
    simp only [run, seen.observeAll_eq, changed.transformAll_eq, ended.finalAll_eq]
  | refused split seen failure => simp only [run, split, seen.observeAll_of_error failure]
  | failed seen changed failure =>
    simp only [run, seen.observeAll_eq, changed.transformAll_of_error failure]

/-- The extensions are called in the order of their priorities, and those with the same priority in
the order they were registered in, just as if they had been sorted once. Over every result the run
is the one that the trace describes: all extensions are shown the unchanged result, each of them is
handed what the one before it made of it, and all are shown the last result, which is returned; the
first call that fails ends the trace, and its error is returned. This holds of extensions of any
kind, whatever they remember and whatever they do to the files. -/
theorem registered_run_iff_trace (w : W) (r : AnalysisResult) (xs : List X) :
    let p := ofList xs
    p.extensions = sortBy byPriority xs ∧
    p.extensions.Perm xs ∧
    p.extensions.Pairwise (fun a b => Staged.priority a ≤ Staged.priority b) ∧
    (∀ k, p.extensions.filter (Staged.priority · = k) = xs.filter (Staged.priority · = k)) ∧
    ∀ progress, p.run w r = progress ↔ Trace w r p.extensions progress := by
  intro p
  have hsorted : p.extensions = sortBy byPriority xs := extensions_ofList xs
  refine ⟨hsorted, ?_, ?_, ?_, ?_⟩
  · rw [hsorted]
    exact sortBy_perm _ xs
  · rw [hsorted]
    exact (ascending_sortBy byPriority xs).imp Int.isLE_compare.mp
  · rw [hsorted]
    exact filter_priority_sortBy xs
  · intro progress
    refine ⟨?_, run_eq_of_trace⟩
    rintro rfl
    obtain ⟨progress, htrace⟩ := exists_trace w r p.extensions
    rwa [run_eq_of_trace htrace]

end CodeAudit.Pipeline
