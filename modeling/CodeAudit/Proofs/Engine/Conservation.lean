import CodeAudit.Proofs.Engine.Workers

/-!
What a run reports, said without plans, positions and accumulators: every file is paired with every
rule of every rule set, and each pair makes its own contribution to the findings, the notifications
and the profile. Nothing else gets into a result, and nothing of it gets lost.
-/

namespace CodeAudit

def Decision.reports : Decision → Bool
  | keep | blocked _ => true
  | suppressed _ => false

/-- The warning about a finding that could not be suppressed. -/
def Decision.warning? : Decision → Option Notification
  | blocked n => some n
  | keep | suppressed _ => none

/-- A file and a rule of a rule set. -/
structure Pairing where
  tree : Tree
  ruleSet : RuleSet
  rule : RuleInstance

namespace Pairing

/-- The rule is active, both path filters accept the file, and no marker on the file switches the
rule off. -/
def applies (u : Pairing) : Bool :=
  u.rule.isActive && u.ruleSet.filter.accepts u.tree.path && u.rule.filter.accepts u.tree.path &&
    !u.rule.resolver.switchedOff u.tree

/-- What came of the visit, if there was one. -/
def visit? (u : Pairing) : Option (Except RuleError (List Finding)) :=
  if u.applies then some (u.rule.visit u.tree) else none

/-- The findings that a successful visit returned and that were not suppressed. -/
def reported (u : Pairing) : List Finding :=
  match u.visit? with
  | some (.ok found) => found.filter fun f => (u.rule.resolver.decide f u.tree).reports
  | _ => []

/-- One error about a visit that failed; one warning for each finding whose suppression was
blocked. -/
def notifications (u : Pairing) : List Notification :=
  match u.visit? with
  | some (.ok found) => found.filterMap fun f => (u.rule.resolver.decide f u.tree).warning?
  | some (.error e) =>
    [.error ("Rule '" ++ u.rule.descriptor.qualifiedId ++ "' failed on " ++ u.tree.path.text ++
      ": " ++ e.message)]
  | none => []

/-- The record of a successful visit, durations left out. -/
def record? (u : Pairing) : Option ExecutionRecord :=
  match u.visit? with
  | some (.ok found) =>
    some {
      ruleSet := u.ruleSet.id
      rule := u.rule.descriptor.ruleId
      file := u.tree.path
      duration := 0
      findings := found.length }
  | _ => none

end Pairing

/-- The pairs of a run: file by file, and for each file rule by rule. -/
def Engine.pairings (e : Engine) (trees : List Tree) : List Pairing :=
  trees.flatMap fun tree => e.ruleSets.flatMap fun ruleSet => ruleSet.rules.map fun rule =>
    { tree, ruleSet, rule }

/-! ### One task -/

namespace Task

/-- The pair that a task stands for. -/
def pairing (t : Task) (tree : Tree) : Pairing := { tree, ruleSet := t.ruleSet, rule := t.rule }

theorem keeps_eq (t : Task) (tree : Tree) (f : Finding) :
    t.keeps tree f = (t.rule.resolver.decide f tree).reports := by
  unfold keeps Resolver.drops
  cases t.rule.resolver.decide f tree <;> rfl

theorem warning?_eq (t : Task) (tree : Tree) (f : Finding) :
    t.warning? tree f = (t.rule.resolver.decide f tree).warning? := by
  unfold warning?
  cases t.rule.resolver.decide f tree <;> rfl

/-- The record of a task's visit, durations left out. -/
def record? (t : Task) (tree : Tree) : Option ExecutionRecord :=
  (t.run tree).visited.map fun findings => {
    ruleSet := t.ruleSet.id
    rule := t.rule.descriptor.ruleId
    file := tree.path
    duration := 0
    findings }

theorem run_eq {t : Task} {tree : Tree} (h : t.ruleSet.runsOn tree.path t.rule = true) :
    (t.run tree).kept = (t.pairing tree).reported ∧
      (t.run tree).notifications = (t.pairing tree).notifications ∧
      t.record? tree = (t.pairing tree).record? := by
  have happlies : (t.pairing tree).applies = !t.rule.resolver.switchedOff tree := by
    simp only [RuleSet.runsOn, Bool.and_eq_true] at h
    simp [Pairing.applies, pairing, h]
  simp only [Pairing.reported, Pairing.notifications, Pairing.record?, Pairing.visit?, happlies]
  unfold record? run
  by_cases hoff : t.rule.resolver.switchedOff tree = true
  · simp [hoff]
  · have hvisit : (t.pairing tree).rule.visit (t.pairing tree).tree = t.rule.visit tree := rfl
    rw [if_neg hoff, if_pos (by simp [hoff]), hvisit]
    cases t.rule.visit tree with
    | error e => exact ⟨rfl, rfl, rfl⟩
    | ok found =>
      refine ⟨?_, ?_, rfl⟩
      · exact congrArg found.filter (funext (t.keeps_eq tree))
      · exact congrArg found.filterMap (funext (t.warning?_eq tree))

end Task

/-- A pair whose rule does not run on the file contributes nothing. -/
theorem Pairing.visit?_eq_none {u : Pairing} (h : u.ruleSet.runsOn u.tree.path u.rule = false) :
    u.visit? = none := by
  have happlies : u.applies = false := by
    rw [← Bool.not_eq_true] at h ⊢
    intro ha
    apply h
    simp only [applies, Bool.and_eq_true] at ha
    simp [RuleSet.runsOn, ha]
  rw [visit?, happlies]
  rfl

/-! ### One file -/

theorem flatMap_zipIdx_fst {α β : Type} (l : List α) (g : α → List β) :
    (l.zipIdx.flatMap fun x => g x.1) = l.flatMap g := by
  rw [← List.flatMap_map, List.zipIdx_map_fst]

theorem flatMap_filter_of_nil {α β : Type} {p : α → Bool} {g : α → List β} (l : List α)
    (h : ∀ a, p a = false → g a = []) : (l.filter p).flatMap g = l.flatMap g := by
  induction l with
  | nil => rfl
  | cons a l ih =>
    by_cases ha : p a = true
    · rw [List.filter_cons_of_pos ha, List.flatMap_cons, List.flatMap_cons, ih]
    · rw [List.filter_cons_of_neg ha, List.flatMap_cons, h a (by simpa using ha), ih]
      rfl

namespace FilePlan

variable (p : FilePlan) (collectors : List Collector) (profiling : Bool) (time : TaskKey → Nat)

theorem notifications_run : (p.run collectors profiling time).notifications =
    p.tasks.flatMap fun t => (t.run p.tree).notifications := by
  change p.outcomes.flatMap _ = _
  rw [outcomes, List.flatMap_map]
  exact flatMap_zipIdx_fst p.tasks fun t => (t.run p.tree).notifications

theorem findings_batches_run (q : String → Bool) :
    ((p.run collectors profiling time).batches.filter fun b => q b.ruleSet).flatMap (·.findings) =
      p.tasks.flatMap fun t => if q t.ruleSet.id then (t.run p.tree).kept else [] := by
  change ((p.outcomes.filterMap p.batch?).filter _).flatMap _ = _
  have hbatch (x : Task × Nat × TaskOutcome) :
      ((p.batch? x).toList.filter fun b => q b.ruleSet).flatMap (·.findings) =
        if q x.1.ruleSet.id then x.2.2.kept else [] := by
    unfold batch?
    split
    · rename_i hempty
      simp [List.isEmpty_iff.mp hempty]
    · by_cases hq : q x.1.ruleSet.id = true <;> simp [hq]
  rw [List.filterMap_eq_flatMap_toList, List.filter_flatMap, List.flatMap_assoc]
  simp only [hbatch]
  rw [outcomes, List.flatMap_map]
  exact flatMap_zipIdx_fst p.tasks fun t => if q t.ruleSet.id then (t.run p.tree).kept else []

theorem untimed_run : (p.run collectors profiling time).profile.untimed.records =
    if profiling then
      p.tasks.flatMap fun t => (t.record? p.tree).toList
    else [] := by
  change List.map _ (if profiling then p.outcomes.filterMap (p.record? time) else []) = _
  split
  · rw [List.map_filterMap]
    simp only [untimed_record?]
    rw [List.filterMap_eq_flatMap_toList, outcomes, List.flatMap_map]
    exact flatMap_zipIdx_fst p.tasks fun t => (t.record? p.tree).toList
  · rfl

end FilePlan

namespace Engine

variable (e : Engine)

theorem place_of_mem_tasksFor {tree : Tree} {t : Task} (h : t ∈ e.tasksFor tree) :
    e.ruleSets[t.place.1]? = some t.ruleSet ∧ t.ruleSet.rules[t.place.2]? = some t.rule := by
  unfold tasksFor at h
  obtain ⟨⟨s, i⟩, hs, h⟩ := List.mem_flatMap.mp h
  obtain ⟨⟨r, k⟩, hr, rfl⟩ := List.mem_map.mp h
  exact ⟨List.mem_zipIdx_iff_getElem?.mp hs,
    List.mem_zipIdx_iff_getElem?.mp (List.mem_filter.mp hr).1⟩

theorem runsOn_of_mem_tasksFor {tree : Tree} {t : Task} (h : t ∈ e.tasksFor tree) :
    t.ruleSet.runsOn tree.path t.rule = true := by
  unfold tasksFor at h
  obtain ⟨⟨s, i⟩, -, h⟩ := List.mem_flatMap.mp h
  obtain ⟨⟨r, k⟩, hr, rfl⟩ := List.mem_map.mp h
  simpa using (List.mem_filter.mp hr).2

theorem flatMap_tasksFor {β : Type} (tree : Tree) (g : Nat × Nat → Pairing → List β)
    (hg : ∀ (place : Nat × Nat) (u : Pairing), u.visit? = none → g place u = []) :
    ((e.tasksFor tree).flatMap fun t => g t.place (t.pairing tree)) =
      e.ruleSets.zipIdx.flatMap fun (ruleSet, i) => ruleSet.rules.zipIdx.flatMap fun (rule, k) =>
        g (i, k) { tree, ruleSet, rule } := by
  unfold tasksFor
  rw [List.flatMap_assoc]
  apply List.flatMap_congr
  rintro ⟨s, i⟩ -
  -- Rules that do not run on the file have no task, and their pairs contribute nothing.
  rw [List.flatMap_map, flatMap_filter_of_nil]
  · rfl
  · rintro ⟨r, k⟩ hr
    exact hg _ _ (Pairing.visit?_eq_none hr)

/-! ### The whole run -/

theorem flatMap_outcomes {β : Type} (trees : List Tree) {f : FileOutcome → List β}
    (k : Task → Tree → List β) (g : Pairing → List β)
    (hf : ∀ p : FilePlan, f (e.pass p) = p.tasks.flatMap fun t => k t p.tree)
    (hk : ∀ (t : Task) (tree : Tree), t.ruleSet.runsOn tree.path t.rule = true →
      k t tree = g (t.pairing tree))
    (hg : ∀ u : Pairing, u.visit? = none → g u = []) :
    (e.outcomes trees).flatMap f = (e.pairings trees).flatMap g := by
  have hfile (tree : Tree) : ((e.tasksFor tree).flatMap fun t => k t tree) =
      (e.pairings [tree]).flatMap g := by
    rw [List.flatMap_congr fun t ht => hk t tree (e.runsOn_of_mem_tasksFor ht),
      e.flatMap_tasksFor tree (fun _ => g) fun _ => hg, pairings, List.flatMap_singleton,
      List.flatMap_assoc, ← flatMap_zipIdx_fst e.ruleSets]
    apply List.flatMap_congr
    rintro ⟨s, i⟩ -
    rw [List.flatMap_map]
    exact flatMap_zipIdx_fst s.rules fun r => g { tree, ruleSet := s, rule := r }
  unfold outcomes schedule
  rw [List.flatMap_map, List.flatMap_map]
  simp only [hf, hfile]
  rw [flatMap_zipIdx_fst trees fun tree => (e.pairings [tree]).flatMap g, ← List.flatMap_assoc]
  simp [pairings]

theorem findings_batches (trees : List Tree) (q : String → Bool) :
    ((e.batches trees).filter fun b => q b.ruleSet).flatMap (·.findings) =
      (e.pairings trees).flatMap fun u => if q u.ruleSet.id then u.reported else [] := by
  rw [batches, List.filter_flatMap, List.flatMap_assoc]
  apply e.flatMap_outcomes trees
    (fun t tree => if q t.ruleSet.id then (t.run tree).kept else [])
    fun u => if q u.ruleSet.id then u.reported else []
  · exact fun p => p.findings_batches_run _ _ _ q
  · exact fun t tree h => by rw [(Task.run_eq h).1]; rfl
  · exact fun u h => by rw [Pairing.reported, h, ite_self]

theorem notifications_outcomes (trees : List Tree) :
    (e.outcomes trees).flatMap (·.notifications) =
      (e.pairings trees).flatMap Pairing.notifications := by
  apply e.flatMap_outcomes trees (fun t tree => (t.run tree).notifications) Pairing.notifications
  · exact fun p => p.notifications_run _ _ _
  · exact fun t tree h => (Task.run_eq h).2.1
  · exact fun u h => by rw [Pairing.notifications, h]

theorem untimed_outcomes (trees : List Tree) :
    (e.outcomes trees).flatMap (·.profile.untimed.records) =
      if e.settings.profiling then (e.pairings trees).filterMap Pairing.record? else [] := by
  by_cases hp : e.settings.profiling = true
  · rw [if_pos hp, List.filterMap_eq_flatMap_toList]
    apply e.flatMap_outcomes trees (fun t tree => (t.record? tree).toList)
      fun u => u.record?.toList
    · exact fun p => (p.untimed_run _ _ _).trans (if_pos hp)
    · exact fun t tree h => congrArg Option.toList (Task.run_eq h).2.2
    · exact fun u h => by rw [Pairing.record?, h]; rfl
  · rw [if_neg hp, List.flatMap_eq_nil_iff]
    intro o ho
    obtain ⟨p, -, rfl⟩ := List.mem_map.mp ho
    exact (p.untimed_run _ _ _).trans (if_neg hp)

theorem findings_analyze_perm (trees : List Tree) :
    (e.analyze trees).findings.Perm ((e.pairings trees).flatMap Pairing.reported) := by
  have hall := e.findings_batches trees fun _ => true
  simp only [List.filter_true, if_true] at hall
  rw [findings_analyze, ← hall]
  exact (Finding.sort_perm _).trans ((Ordered.sortBy_perm Batch.order _).flatMap_right _)

theorem notifications_analyze (trees : List Tree) :
    (e.analyze trees).notifications =
      e.notifications ++ (e.pairings trees).flatMap Pairing.notifications := by
  rw [analyze_eq_finish, notifications_finish, notifications_outcomes]

theorem untimed_analyze (trees : List Tree) :
    (e.analyze trees).profile.untimed.records =
      if e.settings.profiling then (e.pairings trees).filterMap Pairing.record? else [] := by
  rw [analyze_eq_finish, Profile.untimed, records_finish, List.map_flatMap]
  exact e.untimed_outcomes trees

end Engine

theorem RuleInstance.stamped_of_visit {r : RuleInstance} {tree : Tree} {found : List Finding}
    (h : r.visit tree = .ok found) {f : Finding} (hf : f ∈ found) :
    f.ruleId = r.descriptor.ruleId ∧ f.ruleSetId = r.descriptor.ruleSetId ∧
      f.suppressible = r.resolver.suppressible := by
  unfold visit at h
  cases hraw : r.rule.visit { tree, descriptor := r.descriptor, config := r.config } with
  | error e => rw [hraw] at h; cases h
  | ok raw =>
    rw [hraw] at h
    cases h
    obtain ⟨g, -, rfl⟩ := List.mem_map.mp hf
    exact ⟨rfl, rfl, rfl⟩

theorem Pairing.stamped_of_reported {u : Pairing} {f : Finding} (hf : f ∈ u.reported) :
    f.ruleId = u.rule.descriptor.ruleId ∧ f.ruleSetId = u.rule.descriptor.ruleSetId ∧
      f.suppressible = u.rule.resolver.suppressible := by
  unfold reported visit? at hf
  split at hf
  · rename_i found hvisit
    split at hvisit
    · exact RuleInstance.stamped_of_visit (Option.some.inj hvisit) (List.mem_filter.mp hf).1
    · cases hvisit
  · cases hf

/-- A run reports what its pairs contribute and nothing else. Every reported finding carries the
identity of the instance that reported it, the findings are in reporting order, notifications come
file by file and rule by rule behind those from before the run, and a profile has one record for
each successful visit. -/
theorem Engine.analyze_conserves (e : Engine) (trees : List Tree) :
    (e.analyze trees).findings.Perm ((e.pairings trees).flatMap Pairing.reported) ∧
    (∀ u ∈ e.pairings trees, ∀ f ∈ u.reported,
      f.ruleId = u.rule.descriptor.ruleId ∧ f.ruleSetId = u.rule.descriptor.ruleSetId ∧
        f.suppressible = u.rule.resolver.suppressible) ∧
    (e.analyze trees).findings.Pairwise (fun a b => (a.order b).isLE) ∧
    (e.analyze trees).notifications =
      e.notifications ++ (e.pairings trees).flatMap Pairing.notifications ∧
    (e.analyze trees).profile.untimed.records =
      if e.settings.profiling then (e.pairings trees).filterMap Pairing.record? else [] := by
  refine ⟨e.findings_analyze_perm trees, fun u _ f hf => Pairing.stamped_of_reported hf, ?_,
    e.notifications_analyze trees, e.untimed_analyze trees⟩
  rw [findings_analyze]
  exact Finding.ascending_sort _

end CodeAudit
