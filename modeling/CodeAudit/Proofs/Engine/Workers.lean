import CodeAudit.Proofs.Engine.Assembly
import Mathlib.Logic.Relation

/-!
Passes over several files at the same time. Every file has a worker that runs the tasks of the file
one after the other; between two of them the other workers may run any number of theirs. What a task
keeps is added to the shared accumulator in one piece, and how long it takes is anybody's guess.
-/

namespace CodeAudit

/-- A pass that is under way. -/
structure Worker where
  plan : FilePlan
  pending : List (Task × Nat)
  outcome : FileOutcome

namespace Worker

def start (collectors : List Collector) (p : FilePlan) : Worker where
  plan := p
  pending := p.tasks.zipIdx
  outcome := {
    notifications := []
    profile := {}
    metrics := .ofTree collectors p.tree
    batches := [] }

/-- Runs the next task, if there is one. The batch is what it adds to the accumulator. -/
def next? (profiling : Bool) (duration : Nat) (w : Worker) : Option (Worker × Option Batch) :=
  match w.pending with
  | [] => none
  | (t, i) :: rest =>
    let x := (t, i, t.run w.plan.tree)
    let record := if profiling then w.plan.record? (fun _ => duration) x else none
    let batch := w.plan.batch? x
    some
      ({ w with
          pending := rest
          outcome := { w.outcome with
            notifications := w.outcome.notifications ++ x.2.2.notifications
            profile := w.outcome.profile.append { records := record.toList }
            batches := w.outcome.batches ++ batch.toList } },
        batch)

end Worker

/-- The workers of a run, in file order, and the accumulator that they share. -/
structure Crew where
  workers : List Worker
  found : Accumulator

namespace Crew

def start (e : Engine) (trees : List Tree) : Crew where
  workers := (e.schedule trees).map (Worker.start e.collectors)
  found := []

/-- Some worker runs its next task. -/
inductive Step (profiling : Bool) : Crew → Crew → Prop
  | task {before after : List Worker} {w w' : Worker} {batch : Option Batch} {acc : Accumulator}
      (duration : Nat) (h : w.next? profiling duration = some (w', batch)) :
      Step profiling ⟨before ++ w :: after, acc⟩
        ⟨before ++ w' :: after, batch.toList.foldl Accumulator.add acc⟩

/-- No worker has anything left to do. -/
def Idle (c : Crew) : Prop := ∀ w ∈ c.workers, w.pending = []

/-- The number of tasks that are still to be run. -/
def left (c : Crew) : Nat := (c.workers.flatMap (·.pending)).length

end Crew

namespace Engine

/-- A state that some interleaving of the passes over the files comes to. -/
def Reaches (e : Engine) (trees : List Tree) (c : Crew) : Prop :=
  Relation.ReflTransGen (Crew.Step e.settings.profiling) (Crew.start e trees) c

/-- A result of a run with workers: put together when they are idle, from the accumulator with its
keys in any order. -/
def MayReturn (e : Engine) (trees : List Tree) (r : AnalysisResult) : Prop :=
  ∃ c acc, e.Reaches trees c ∧ c.Idle ∧ List.Perm acc c.found ∧
    r = e.finish acc (c.workers.map (·.outcome))

end Engine

def ExecutionRecord.untimed (r : ExecutionRecord) : ExecutionRecord := { r with duration := 0 }

def Profile.untimed (p : Profile) : Profile := { records := p.records.map (·.untimed) }

theorem FilePlan.untimed_record? (p : FilePlan) (time : TaskKey → Nat)
    (x : Task × Nat × TaskOutcome) :
    (p.record? time x).map (·.untimed) = p.record? (fun _ => 0) x := by
  unfold record?
  rw [Option.map_map]
  rfl

/-! ### One task -/

namespace Worker

def remaining (w : Worker) : List (Task × Nat × TaskOutcome) :=
  w.pending.map fun (t, i) => (t, i, t.run w.plan.tree)

/-- The worker has left behind the first part of what the pass over its file leaves behind, and the
tasks it has still to run will add the rest. -/
structure OnTrack (e : Engine) (w : Worker) : Prop where
  metrics : w.outcome.metrics = (e.pass w.plan).metrics
  notifications : w.outcome.notifications ++ w.remaining.flatMap (·.2.2.notifications) =
    (e.pass w.plan).notifications
  profile : w.outcome.profile.untimed.records ++
      (if e.settings.profiling then w.remaining.filterMap (w.plan.record? fun _ => 0) else []) =
    (e.pass w.plan).profile.untimed.records
  batches : w.outcome.batches ++ w.remaining.filterMap w.plan.batch? = (e.pass w.plan).batches

theorem onTrack_start (e : Engine) (p : FilePlan) : (start e.collectors p).OnTrack e where
  metrics := rfl
  notifications := rfl
  profile := by
    change [] ++ _ = List.map _ (if _ then _ else _)
    by_cases hp : e.settings.profiling = true
    · rw [if_pos hp, if_pos hp, List.nil_append, List.map_filterMap]
      simp only [FilePlan.untimed_record?]
      rfl
    · rw [if_neg hp, if_neg hp]
      rfl
  batches := rfl

theorem next?_eq_some {profiling : Bool} {duration : Nat} {w w' : Worker} {batch : Option Batch}
    (h : w.next? profiling duration = some (w', batch)) :
    ∃ t i rest, w.pending = (t, i) :: rest ∧
      batch = w.plan.batch? (t, i, t.run w.plan.tree) ∧
      w' = { w with
        pending := rest
        outcome := { w.outcome with
          notifications := w.outcome.notifications ++ (t.run w.plan.tree).notifications
          profile := w.outcome.profile.append { records := (if profiling then
            w.plan.record? (fun _ => duration) (t, i, t.run w.plan.tree) else none).toList }
          batches := w.outcome.batches ++ batch.toList } } := by
  unfold next? at h
  split at h
  · cases h
  · rename_i t i rest hw
    obtain ⟨rfl, rfl⟩ := Prod.mk.inj (Option.some.inj h)
    exact ⟨t, i, rest, hw, rfl, rfl⟩

theorem exists_next? {w : Worker} (profiling : Bool) (duration : Nat) (h : w.pending ≠ []) :
    ∃ x, w.next? profiling duration = some x := by
  obtain ⟨x, rest, hw⟩ := List.exists_cons_of_ne_nil h
  rw [next?, hw]
  exact ⟨_, rfl⟩

theorem filterMap_cons_eq_append {α β : Type} (f : α → Option β) (a : α) (l : List α) :
    (a :: l).filterMap f = (f a).toList ++ l.filterMap f := by
  rw [List.filterMap_cons]
  cases f a <;> rfl

theorem OnTrack.next {e : Engine} {w w' : Worker} {batch : Option Batch} {duration : Nat}
    (hw : w.OnTrack e) (h : w.next? e.settings.profiling duration = some (w', batch)) :
    w'.OnTrack e := by
  obtain ⟨t, i, rest, hpending, rfl, rfl⟩ := next?_eq_some h
  have hremaining : w.remaining = (t, i, t.run w.plan.tree) ::
      rest.map fun (t, i) => (t, i, t.run w.plan.tree) := by
    rw [remaining, hpending]
    rfl
  refine ⟨hw.metrics, ?_, ?_, ?_⟩
  · rw [← hw.notifications, hremaining, List.flatMap_cons, ← List.append_assoc]
    rfl
  · rw [← hw.profile, hremaining]
    simp only [Profile.untimed, Profile.append, List.map_append, List.append_assoc, remaining]
    -- With profiling, the record of the task moves from what is to come to what was left behind.
    by_cases hp : e.settings.profiling = true
    · simp only [hp, if_true, filterMap_cons_eq_append, ← FilePlan.untimed_record? _
        (fun _ => duration), Option.toList_map]
    · rw [if_neg hp, if_neg hp, if_neg hp]
      rfl
  · rw [← hw.batches, hremaining, filterMap_cons_eq_append, ← List.append_assoc]
    rfl

/-- A worker that is on track and has nothing left to run has made the pass over its file. -/
theorem OnTrack.outcome_eq {e : Engine} {w : Worker} (hw : w.OnTrack e)
    (hpending : w.pending = []) :
    w.outcome.metrics = (e.pass w.plan).metrics ∧
      w.outcome.notifications = (e.pass w.plan).notifications ∧
      w.outcome.profile.untimed.records = (e.pass w.plan).profile.untimed.records ∧
      w.outcome.batches = (e.pass w.plan).batches := by
  have hremaining : w.remaining = [] := by rw [remaining, hpending]; rfl
  refine ⟨hw.metrics, ?_, ?_, ?_⟩
  · simpa [hremaining] using hw.notifications
  · simpa [hremaining] using hw.profile
  · simpa [hremaining] using hw.batches

end Worker

/-! ### Runs -/

namespace Crew

/-- Every worker is on track, and the accumulator holds what they have left behind so far, in the
order of some interleaving. -/
structure OnTrack (e : Engine) (trees : List Tree) (c : Crew) : Prop where
  plans : c.workers.map (·.plan) = e.schedule trees
  workers : ∀ w ∈ c.workers, w.OnTrack e
  found : ∃ bs : List Batch, c.found = .ofBatches bs ∧
    bs.Perm (c.workers.flatMap (·.outcome.batches))

theorem onTrack_start (e : Engine) (trees : List Tree) : (start e trees).OnTrack e trees where
  plans := by
    rw [start, List.map_map]
    exact List.map_id _
  workers := by
    intro w hw
    obtain ⟨p, -, rfl⟩ := List.mem_map.mp hw
    exact Worker.onTrack_start e p
  found := by
    refine ⟨[], rfl, ?_⟩
    have hnone : (start e trees).workers.flatMap (·.outcome.batches) = [] := by
      simp [start, Worker.start]
    rw [hnone]

theorem OnTrack.step {e : Engine} {trees : List Tree} {c c' : Crew} (hc : c.OnTrack e trees)
    (h : Step e.settings.profiling c c') : c'.OnTrack e trees := by
  cases h with
  | @task before after w w' batch acc duration h =>
    obtain ⟨hplans, hworkers, bs, hfound, hbs⟩ := hc
    obtain ⟨t, i, rest, -, hbatch, hw'⟩ := Worker.next?_eq_some h
    refine ⟨?_, ?_, bs ++ batch.toList, ?_, ?_⟩
    · have hplan : w'.plan = w.plan := by rw [hw']
      simpa [hplan] using hplans
    · intro v hv
      rcases List.mem_append.mp hv with hv | hv
      · exact hworkers v (by simp [hv])
      · rcases List.mem_cons.mp hv with rfl | hv
        · exact (hworkers w (by simp)).next h
        · exact hworkers v (by simp [hv])
    · change List.foldl _ acc _ = _
      rw [show acc = .ofBatches bs from hfound, Accumulator.ofBatches, Accumulator.ofBatches,
        List.foldl_append]
    · have hout : w'.outcome.batches = w.outcome.batches ++ batch.toList := by rw [hw']
      -- The new batch stands behind all others in one list and amid them in the other.
      have hmove := (hbs.append_right batch.toList)
      simp only [List.flatMap_append, List.flatMap_cons, hout, List.append_assoc] at hmove ⊢
      refine hmove.trans (List.Perm.append_left _ (List.Perm.append_left _ ?_))
      exact List.perm_append_comm

theorem OnTrack.of_reaches {e : Engine} {trees : List Tree} {c : Crew} (h : e.Reaches trees c) :
    c.OnTrack e trees := by
  induction h with
  | refl => exact onTrack_start e trees
  | tail _ hstep ih => exact ih.step hstep

theorem left_lt_of_step {profiling : Bool} {c c' : Crew} (h : Step profiling c c') :
    c'.left < c.left := by
  cases h with
  | task duration h =>
    obtain ⟨t, i, rest, hpending, -, hw'⟩ := Worker.next?_eq_some h
    simp only [left, hw', hpending, List.flatMap_append, List.flatMap_cons, List.length_append,
      List.length_cons]
    omega

theorem idle_or_step (profiling : Bool) (c : Crew) : c.Idle ∨ ∃ c', Step profiling c c' := by
  by_cases hidle : c.Idle
  · exact .inl hidle
  · obtain ⟨w, hw, hpending⟩ : ∃ w ∈ c.workers, w.pending ≠ [] := by simpa [Idle] using hidle
    obtain ⟨before, after, hworkers⟩ := List.append_of_mem hw
    obtain ⟨⟨w', batch⟩, hnext⟩ := Worker.exists_next? profiling 0 hpending
    have hc : c = ⟨before ++ w :: after, c.found⟩ := congrArg (Crew.mk · c.found) hworkers
    rw [hc]
    exact .inr ⟨_, .task 0 hnext⟩

theorem step_wellFounded (profiling : Bool) :
    WellFounded fun c' c => Step profiling c c' :=
  Subrelation.wf left_lt_of_step (measure left).wf

theorem exists_idle (profiling : Bool) (c : Crew) :
    ∃ c', Relation.ReflTransGen (Step profiling) c c' ∧ c'.Idle := by
  induction c using (step_wellFounded profiling).induction with
  | _ c ih =>
    rcases idle_or_step profiling c with hidle | ⟨c', hstep⟩
    · exact ⟨c, .refl, hidle⟩
    · obtain ⟨last, hlast, hidle⟩ := ih c' hstep
      exact ⟨last, .head hstep hlast, hidle⟩

theorem OnTrack.map_outcome {e : Engine} {trees : List Tree} {c : Crew} (hc : c.OnTrack e trees)
    {β : Type} (f : FileOutcome → β) (h : ∀ w ∈ c.workers, f w.outcome = f (e.pass w.plan)) :
    (c.workers.map (·.outcome)).map f = (e.outcomes trees).map f := by
  rw [Engine.outcomes, ← hc.plans, List.map_map, List.map_map, List.map_map]
  exact List.map_congr_left h

theorem OnTrack.flatMap_outcome {e : Engine} {trees : List Tree} {c : Crew}
    (hc : c.OnTrack e trees) {β : Type} (f : FileOutcome → List β)
    (h : ∀ w ∈ c.workers, f w.outcome = f (e.pass w.plan)) :
    (c.workers.map (·.outcome)).flatMap f = (e.outcomes trees).flatMap f := by
  rw [List.flatMap_def, hc.map_outcome f h, ← List.flatMap_def]

end Crew

namespace Engine

variable {e : Engine} {trees : List Tree} {c : Crew}

theorem findings_of_idle (hc : c.OnTrack e trees) (hidle : c.Idle) {acc : Accumulator}
    (hacc : List.Perm acc c.found) :
    (e.finish acc (c.workers.map (·.outcome))).findings = (e.analyze trees).findings := by
  obtain ⟨bs, hfound, hbs⟩ := hc.found
  have hbatches : c.workers.flatMap (·.outcome.batches) = e.batches trees := by
    have h := hc.flatMap_outcome (·.batches) fun w hw =>
      ((hc.workers w hw).outcome_eq (hidle w hw)).2.2.2
    rwa [List.flatMap_map] at h
  rw [hfound] at hacc
  rw [findings_finish e (Accumulator.strict_ofBatches bs) hacc, findings_analyze,
    Accumulator.slots_ofBatches, e.sortBy_eq_of_perm_batches (hbatches ▸ hbs), List.map_flatMap]
  simp [Batch.slots, Function.comp_def]

theorem exists_mayReturn (e : Engine) (trees : List Tree) : ∃ r, e.MayReturn trees r := by
  obtain ⟨c, hreach, hidle⟩ := Crew.exists_idle e.settings.profiling (Crew.start e trees)
  exact ⟨_, c, c.found, hreach, hidle, .refl _, rfl⟩

/-- Running the passes over the files at the same time comes to the same result as running them one
after the other, durations apart: every interleaving ends, it ends only when all work is done, and
then the order of the accumulator's keys makes no difference either. -/
theorem interleaved_run_eq_analyze (e : Engine) (trees : List Tree) :
    WellFounded (fun c' c => Crew.Step e.settings.profiling c c') ∧
    (∀ c, e.Reaches trees c → c.Idle ∨ ∃ c', Crew.Step e.settings.profiling c c') ∧
    (∃ r, e.MayReturn trees r) ∧
    ∀ r, e.MayReturn trees r →
      r.findings = (e.analyze trees).findings ∧
      r.notifications = (e.analyze trees).notifications ∧
      r.metrics = (e.analyze trees).metrics ∧
      r.profile.untimed = (e.analyze trees).profile.untimed := by
  refine ⟨Crew.step_wellFounded _, fun c _ => c.idle_or_step _, e.exists_mayReturn trees, ?_⟩
  rintro r ⟨c, acc, hreach, hidle, hacc, rfl⟩
  have hc := Crew.OnTrack.of_reaches hreach
  have hdone : ∀ w ∈ c.workers, _ := fun w hw => (hc.workers w hw).outcome_eq (hidle w hw)
  refine ⟨findings_of_idle hc hidle hacc, ?_, ?_, ?_⟩
  · rw [analyze_eq_finish, notifications_finish, notifications_finish,
      hc.flatMap_outcome (·.notifications) fun w hw => (hdone w hw).2.1]
  · rw [analyze_eq_finish, metrics_finish, metrics_finish,
      hc.map_outcome (·.metrics) fun w hw => (hdone w hw).1]
  · have hrecords := hc.flatMap_outcome (·.profile.untimed.records) fun w hw =>
      (hdone w hw).2.2.1
    rw [analyze_eq_finish, Profile.untimed, Profile.untimed, records_finish, records_finish,
      List.map_flatMap, List.map_flatMap]
    exact congrArg Profile.mk hrecords

end Engine

end CodeAudit
