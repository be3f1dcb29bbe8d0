import CodeAudit.Proofs.Engine.Accumulator

namespace CodeAudit

open Ordered

/-! ### Folding into the parts -/

namespace ResultParts

theorem foldl_addFindings (acc : Accumulator) (p : ResultParts) :
    acc.foldl (fun p x => p.addFindings x.1 (Accumulator.inOrder x.2)) p =
      { p with
        findings := acc.foldl
          (fun t x => Table.update compare x.1
            (fun old => old.getD [] ++ Accumulator.inOrder x.2) t) p.findings } := by
  induction acc generalizing p with
  | nil => rfl
  | cons x acc ih => rw [List.foldl_cons, ih]; rfl

/-- Adds what the pass over a file left behind, its findings apart. -/
def addOutcome (p : ResultParts) (o : FileOutcome) : ResultParts :=
  ((p.addNotifications o.notifications).addMetrics o.metrics).addProfile o.profile

theorem foldl_addOutcome (os : List FileOutcome) (p : ResultParts) :
    os.foldl addOutcome p =
      { p with
        notifications := p.notifications ++ os.flatMap (·.notifications)
        metrics := (os.map (·.metrics)).foldl MetricTable.merge p.metrics
        profile := { records := p.profile.records ++ os.flatMap (·.profile.records) } } := by
  induction os generalizing p with
  | nil => simp
  | cons o os ih =>
    rw [List.foldl_cons, ih]
    simp [addOutcome, addNotifications, addMetrics, addProfile, Profile.append]

end ResultParts

namespace Engine

variable (e : Engine)

/-- The findings come from the accumulator alone, and the order of its keys makes no difference. -/
theorem findings_finish {acc acc' : Accumulator} (h : Table.Strict compare acc)
    (hperm : acc'.Perm acc) (os : List FileOutcome) :
    (e.finish acc' os).findings = Finding.sort (acc.slots.map (·.finding)) := by
  change (ResultParts.build (os.foldl ResultParts.addOutcome _)).findings = _
  rw [ResultParts.foldl_addFindings, ResultParts.foldl_addOutcome, Accumulator.map_finding_slots]
  change Finding.sort ((acc'.foldl _ []).flatMap _) = _
  -- The findings go through a second table, which is the first one again.
  rw [Table.foldl_update_eq_map (fun x old => old.getD [] ++ Accumulator.inOrder x.2) h hperm,
    List.flatMap_map]
  rfl

theorem notifications_finish (acc : Accumulator) (os : List FileOutcome) :
    (e.finish acc os).notifications = e.notifications ++ os.flatMap (·.notifications) := by
  change (ResultParts.build (os.foldl ResultParts.addOutcome _)).notifications = _
  rw [ResultParts.foldl_addFindings, ResultParts.foldl_addOutcome]
  rfl

theorem metrics_finish (acc : Accumulator) (os : List FileOutcome) :
    (e.finish acc os).metrics = ((os.map (·.metrics)).foldl MetricTable.merge {}).totals := by
  change (ResultParts.build (os.foldl ResultParts.addOutcome _)).metrics = _
  rw [ResultParts.foldl_addFindings, ResultParts.foldl_addOutcome]
  rfl

theorem records_finish (acc : Accumulator) (os : List FileOutcome) :
    (e.finish acc os).profile.records = os.flatMap (·.profile.records) := by
  change (ResultParts.build (os.foldl ResultParts.addOutcome _)).profile.records = _
  rw [ResultParts.foldl_addFindings, ResultParts.foldl_addOutcome]
  rfl

/-- What the passes over the files leave behind, in file order. -/
def outcomes (trees : List Tree) : List FileOutcome := (e.schedule trees).map e.pass

/-- Everything that is added to the accumulator, in file order. -/
def batches (trees : List Tree) : List Batch := (e.outcomes trees).flatMap (·.batches)

theorem analyze_eq_finish (trees : List Tree) :
    e.analyze trees = e.finish (.ofBatches (e.batches trees)) (e.outcomes trees) := rfl

/-- The findings of a run: those of the batches, ordered by rule set and place before they are put
into the order of the report. -/
theorem findings_analyze (trees : List Tree) :
    (e.analyze trees).findings =
      Finding.sort ((sortBy Batch.order (e.batches trees)).flatMap (·.findings)) := by
  rw [analyze_eq_finish, findings_finish e (Accumulator.strict_ofBatches _) (.refl _),
    Accumulator.slots_ofBatches, List.map_flatMap]
  simp [Batch.slots, Function.comp_def]

theorem metrics_analyze (trees : List Tree) :
    (e.analyze trees).metrics =
      ((trees.map (MetricTable.ofTree e.collectors)).foldl MetricTable.merge {}).totals := by
  have htables : (e.outcomes trees).map (·.metrics) =
      trees.map (MetricTable.ofTree e.collectors) := by
    conv_rhs => rw [← List.zipIdx_map_fst 0 trees]
    rw [outcomes, schedule, List.map_map, List.map_map, List.map_map]
    rfl
  rw [analyze_eq_finish, metrics_finish, htables]

end Engine

/-! ### Places in a run -/

theorem pairwise_zipIdx {α : Type} (l : List α) : l.zipIdx.Pairwise fun x y => x.2 < y.2 := by
  have hpositions : (l.zipIdx.map Prod.snd).Pairwise (· < ·) := by
    rw [List.zipIdx_map_snd]
    exact List.pairwise_lt_range' _
  rwa [List.pairwise_map] at hpositions

namespace FilePlan

theorem of_batch? {p : FilePlan} {x : Task × Nat × TaskOutcome} {b : Batch}
    (h : p.batch? x = some b) : b.ruleSet = x.1.ruleSet.id ∧ b.key = (p.file, x.2.1) := by
  unfold batch? at h
  split at h
  · cases h
  · cases h
    exact ⟨rfl, rfl⟩

theorem file_of_mem_batches {p : FilePlan} {collectors : List Collector} {profiling : Bool}
    {time : TaskKey → Nat} {b : Batch} (h : b ∈ (p.run collectors profiling time).batches) :
    b.key.1 = p.file := by
  obtain ⟨x, -, hx⟩ := List.mem_filterMap.mp h
  rw [(of_batch? hx).2]

theorem ascending_batches (p : FilePlan) (collectors : List Collector) (profiling : Bool)
    (time : TaskKey → Nat) :
    (p.run collectors profiling time).batches.Pairwise fun a b =>
      TaskKey.order a.key b.key = .lt := by
  change (p.outcomes.filterMap p.batch?).Pairwise _
  rw [List.pairwise_filterMap, outcomes, List.pairwise_map]
  refine (pairwise_zipIdx p.tasks).imp fun {x y} hxy => ?_
  intro a ha b hb
  rw [(of_batch? ha).2, (of_batch? hb).2]
  simpa [TaskKey.order, Nat.compare_eq_lt] using hxy

end FilePlan

namespace Engine

variable (e : Engine)

/-- The batches of a run are in the order of their places, and no two have the same place. -/
theorem ascending_batches (trees : List Tree) :
    (e.batches trees).Pairwise fun a b => TaskKey.order a.key b.key = .lt := by
  unfold batches outcomes schedule
  rw [List.pairwise_flatMap]
  constructor
  · intro o ho
    obtain ⟨p, -, rfl⟩ := List.mem_map.mp ho
    exact p.ascending_batches _ _ _
  · rw [List.pairwise_map, List.pairwise_map]
    refine (pairwise_zipIdx trees).imp fun {x y} hxy => ?_
    intro a ha b hb
    have hfiles : compare a.key.1 b.key.1 = .lt := by
      rw [FilePlan.file_of_mem_batches ha, FilePlan.file_of_mem_batches hb]
      exact Nat.compare_eq_lt.mpr hxy
    rw [TaskKey.order, hfiles]
    rfl

theorem sortBy_eq_of_perm_batches {trees : List Tree} {bs : List Batch}
    (h : bs.Perm (e.batches trees)) :
    sortBy Batch.order bs = sortBy Batch.order (e.batches trees) := by
  symm
  apply sortBy_eq_of_perm Batch.order h.symm
  refine (e.ascending_batches trees).imp fun {a b} hab heq => ?_
  exact absurd (hab.symm.trans (Ordering.then_eq_eq.mp heq).2) (by simp)

end Engine

end CodeAudit
