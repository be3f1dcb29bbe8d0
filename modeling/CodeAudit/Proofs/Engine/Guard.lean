import CodeAudit.Proofs.Baseline.Stage
import CodeAudit.Proofs.Engine.Conservation
import CodeAudit.Proofs.Success

namespace CodeAudit

theorem RuleInstance.of_create {d : Descriptor} {config : Config} {rule : Rule} {r : RuleInstance}
    (h : create d config rule = .ok r) :
    r.descriptor = d ∧ r.resolver.suppressible = d.category.isSuppressible := by
  unfold create Resolver.ofRule at h
  obtain ⟨filter, -, h⟩ := Success.of_bind h
  obtain ⟨resolver, hresolver, h⟩ := Success.of_bind h
  obtain ⟨marked, -, hresolver⟩ := Success.of_bind hresolver
  obtain ⟨functions, -, hresolver⟩ := Success.of_bind hresolver
  obtain rfl := Except.ok.inj h
  obtain rfl := Except.ok.inj hresolver
  exact ⟨rfl, rfl⟩

namespace Resolver

/-- The first suppressor that claims a finding. -/
def claimant? (r : Resolver) (f : Finding) (t : Tree) : Option Suppressor :=
  r.suppressors.find? fun s => s.claims f t

theorem decide_of_unsuppressible {r : Resolver} (h : r.suppressible = false) (f : Finding)
    (t : Tree) :
    (r.decide f t).reports = true ∧
      (r.decide f t).warning? = (r.claimant? f t).map fun s => r.blockedWarning s f := by
  unfold decide claimant?
  cases r.suppressors.find? fun s => s.claims f t with
  | none => exact ⟨rfl, rfl⟩
  | some s => simp [h, Decision.reports, Decision.warning?]

end Resolver

/-- A pair whose rule cannot be suppressed reports all that a successful visit returns. -/
theorem Pairing.of_unsuppressible {u : Pairing} (hactive : u.rule.isActive = true)
    (hset : u.ruleSet.filter.accepts u.tree.path = true)
    (hown : u.rule.filter.accepts u.tree.path = true) (h : u.rule.resolver.suppressible = false)
    {found : List Finding} (hvisit : u.rule.visit u.tree = .ok found) :
    u.reported = found ∧
      u.notifications = found.filterMap fun f =>
        (u.rule.resolver.claimant? f u.tree).map fun s => u.rule.resolver.blockedWarning s f := by
  have happlies : u.applies = true := by
    simp [applies, hactive, hset, hown, Resolver.switchedOff, h]
  have hvisited : u.visit? = some (.ok found) := by rw [visit?, if_pos happlies, hvisit]
  unfold reported notifications
  rw [hvisited]
  constructor
  · exact List.filter_eq_self.mpr fun f _ => (Resolver.decide_of_unsuppressible h f u.tree).1
  · exact congrArg found.filterMap
      (funext fun f => (Resolver.decide_of_unsuppressible h f u.tree).2)

/-- Findings of an active guard cannot be silenced. All that a successful visit returns is in the
result, each as often as it was returned, and one warning is added for each finding that some
suppressor claims. A baseline stage leaves all of them in as well, and adds one warning for each
that is recorded. -/
theorem guard_findings_survive {d : Descriptor} {config : Config} {rule : Rule} {r : RuleInstance}
    (hcreate : RuleInstance.create d config rule = .ok r) (hguard : d.category = .guarding)
    (hactive : d.isActive = true) {e : Engine} {trees : List Tree} {before after : List Pairing}
    {tree : Tree} {s : RuleSet} (hpair : e.pairings trees = before ++ ⟨tree, s, r⟩ :: after)
    (hset : s.filter.accepts tree.path = true) (hown : r.filter.accepts tree.path = true)
    {found : List Finding} (hvisit : r.visit tree = .ok found)
    {stage stage' : BaselineStage} {fs : FileSystem} {b : Baseline}
    (hread : stage.read fs = .ok (stage', b)) :
    (e.analyze trees).findings.Perm (found ++ (before ++ after).flatMap Pairing.reported) ∧
    (e.analyze trees).notifications =
      e.notifications ++ (before.flatMap Pairing.notifications ++
        (found.filterMap fun f =>
          (r.resolver.claimant? f tree).map fun x => r.resolver.blockedWarning x f) ++
        after.flatMap Pairing.notifications) ∧
    ∃ result added, stage.transform fs (e.analyze trees) = .ok (stage', result) ∧
      result.findings.Perm (found ++ b.keep ((before ++ after).flatMap Pairing.reported)) ∧
      (∀ f ∈ found, result.findings.count f = (e.analyze trees).findings.count f) ∧
      result.notifications = (e.analyze trees).notifications ++ added ∧
      added.Perm (((found.filter b.records) ++
        b.blocked ((before ++ after).flatMap Pairing.reported)).map
          BaselineStage.blockedWarning) := by
  -- The category fixes the resolver's flag, and the flag is stamped on every finding.
  obtain ⟨rfl, hsuppressible⟩ := RuleInstance.of_create hcreate
  have hfixed : r.resolver.suppressible = false := by rw [hsuppressible, hguard]; rfl
  have hfound : ∀ f ∈ found, f.suppressible = false := fun f hf =>
    (RuleInstance.stamped_of_visit hvisit hf).2.2.trans hfixed
  obtain ⟨hreported, hwarned⟩ := Pairing.of_unsuppressible (u := ⟨tree, s, r⟩) hactive hset hown
    hfixed hvisit
  have hfindings : (e.analyze trees).findings.Perm
      (found ++ (before ++ after).flatMap Pairing.reported) := by
    refine (e.findings_analyze_perm trees).trans ?_
    rw [hpair, List.flatMap_append, List.flatMap_append, List.flatMap_cons, hreported]
    exact List.perm_append_comm_assoc ..
  refine ⟨hfindings, ?_, BaselineStage.apply b (e.analyze trees), _,
    BaselineStage.transform_eq_ok hread _, ?_, ?_, BaselineStage.notifications_apply b _, ?_⟩
  · rw [e.notifications_analyze, hpair, List.flatMap_append, List.flatMap_cons, hwarned,
      List.append_assoc]
  · have hkept := (BaselineStage.findings_apply_perm b _).trans (hfindings.filter _)
    rwa [← Baseline.keep, Baseline.keep_append, b.keep_of_unsuppressible hfound] at hkept
  · intro f hf
    rw [(BaselineStage.findings_apply_perm b _).count_eq, b.count_keep (hfound f hf)]
  · have hblocked := (hfindings.filter fun f => !f.suppressible && b.records f).map
      BaselineStage.blockedWarning
    rw [List.filter_append] at hblocked
    rwa [← b.blocked_of_unsuppressible hfound]

/-! ### A guard that everything tries to silence -/

namespace FileWatch

def descriptor : Descriptor :=
  { ruleSetId := "guard", ruleId := "FileWatch", baseId := "FileWatch", category := .guarding }

/-- Reports every file, with a reason for dropping the report. -/
def rule : Rule where
  visit ctx := .ok [{ ctx.finding Tree.rootId "watched" with suppressReasons := ["generated"] }]

def watcher : RuleInstance where
  descriptor := descriptor
  config := .empty
  resolver :=
    { rule := descriptor.qualifiedId
      suppressible := false
      targets := .ofRule descriptor
      suppressors := [.attachedReason, .marker (.ofRule descriptor)] }
  filter := {}
  rule := rule

/-- A file whose marker addresses every rule. -/
def file : Tree where
  path := ⟨"A.kt"⟩
  nodes := #[{ kind := .file, marks := [{ name := "Suppress", args := ["all"] }] }]

def finding : Finding where
  ruleId := "FileWatch"
  ruleSetId := "guard"
  severity := .warning
  message := "watched"
  entity := Entity.ofNode file Tree.rootId
  suppressReasons := ["generated"]
  suppressible := false

def ruleSet : RuleSet := { id := "guard", rules := [watcher], filter := {} }

def engine : Engine := { ruleSets := [ruleSet] }

def baseline : Baseline := { current := TextSet.empty.insert finding.baselineId }

def stage : BaselineStage := { path := ⟨"baseline.xml"⟩, loaded := some baseline }

theorem records_finding : baseline.records finding = true := by
  simp [Baseline.records, Baseline.contains, baseline, TextSet.contains_insert]

end FileWatch

open FileWatch in
/-- A marker on the file, a reason of the rule's own and a baseline all claim the finding. It stays,
and two warnings are all they earn. -/
theorem guard_findings_survive_file_watch :
    RuleInstance.create descriptor .empty rule = .ok watcher ∧ descriptor.category = .guarding ∧
    descriptor.isActive = true ∧ engine.pairings [file] = [⟨file, ruleSet, watcher⟩] ∧
    ruleSet.filter.accepts file.path = true ∧ watcher.filter.accepts file.path = true ∧
    watcher.visit file = .ok [finding] ∧ stage.read ⟨[], ⟨""⟩⟩ = .ok (stage, baseline) ∧
    (engine.analyze [file]).findings = [finding] ∧
    (engine.analyze [file]).notifications =
      [watcher.resolver.blockedWarning .attachedReason finding] ∧
    ∃ result, stage.transform ⟨[], ⟨""⟩⟩ (engine.analyze [file]) = .ok (stage, result) ∧
      result.findings = [finding] ∧
      result.notifications =
        [watcher.resolver.blockedWarning .attachedReason finding,
          BaselineStage.blockedWarning finding] := by
  have hcreate : RuleInstance.create descriptor .empty rule = .ok watcher := rfl
  have hpair : engine.pairings [file] = [] ++ ⟨file, ruleSet, watcher⟩ :: [] := rfl
  have hvisit : watcher.visit file = .ok [finding] := rfl
  have hread : stage.read ⟨[], ⟨""⟩⟩ = .ok (stage, baseline) := rfl
  obtain ⟨hfindings, hnotifications, result, added, htransform, hkept, -, hadded, hwarned⟩ :=
    guard_findings_survive hcreate rfl rfl hpair rfl rfl hvisit hread
  have hclaimed : (engine.analyze [file]).notifications =
      [watcher.resolver.blockedWarning .attachedReason finding] := hnotifications
  have hblocked : added = [BaselineStage.blockedWarning finding] := by
    simpa [records_finding, Baseline.blocked] using hwarned
  refine ⟨hcreate, rfl, rfl, hpair, rfl, rfl, hvisit, hread, List.perm_singleton.mp hfindings,
    hclaimed, result, htransform, List.perm_singleton.mp hkept, ?_⟩
  rw [hadded, hclaimed, hblocked]
  rfl

end CodeAudit
