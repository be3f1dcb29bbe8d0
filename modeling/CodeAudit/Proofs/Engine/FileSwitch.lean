import CodeAudit.Proofs.Engine.Conservation
import CodeAudit.Proofs.Success
import CodeAudit.Proofs.Tree.Made

namespace CodeAudit

variable {t : Tree}

/-! ### Decisions in a file that switches the rule off -/

theorem Finding.anchor_lt_size (f : Finding) (h : 0 < t.size) : f.anchor t < t.size := by
  unfold anchor
  split
  · split
    next hnode => exact (Array.getElem?_eq_some_iff.mp (Option.get_mem hnode)).1
    next => exact h
  · exact h

theorem Suppressor.claims_of_matchedOn_root (ht : t.Made) {targets : MarkerTargets}
    (h : targets.matchedOn t Tree.rootId = true) (f : Finding) :
    (marker targets).claims f t = true := by
  have hanchor := f.anchor_lt_size ht.rooted.size_pos
  exact List.any_eq_true.mpr ⟨Tree.rootId, ht.rootId_mem_ancestors hanchor, h⟩

namespace Resolver

variable {r : Resolver}

/-- Resolvers that were set up for a rule, with what was added to them later. -/
inductive Assembled : Resolver → Prop
  | forRule {d : Descriptor} {config : Config} {r : Resolver} (h : ofRule d config = .ok r) :
      Assembled r
  | extended {r : Resolver} (h : Assembled r) (s : Suppressor) : Assembled (r.withSuppressor s)

theorem Assembled.marker_mem (h : r.Assembled) : .marker r.targets ∈ r.suppressors := by
  induction h with
  | forRule h =>
    unfold ofRule at h
    obtain ⟨marked, -, h⟩ := Success.of_bind h
    obtain ⟨functions, -, h⟩ := Success.of_bind h
    obtain rfl := Except.ok.inj h
    simp
  | extended _ s ih => exact List.mem_append_left [s] ih

/-- The suppressor that claims the finding need not be the marker: one before it may come first. -/
theorem decide_of_switchedOff (hr : r.Assembled) (ht : t.Made) (h : r.switchedOff t = true)
    (f : Finding) : ∃ reason, r.decide f t = .suppressed reason := by
  obtain ⟨hsuppressible, hmatched⟩ := Bool.and_eq_true_iff.mp h
  have hclaimed : (r.suppressors.find? fun s => s.claims f t).isSome :=
    List.find?_isSome.mpr
      ⟨.marker r.targets, hr.marker_mem, Suppressor.claims_of_matchedOn_root ht hmatched f⟩
  obtain ⟨s, hs⟩ := Option.isSome_iff_exists.mp hclaimed
  refine ⟨s.name, ?_⟩
  rw [decide, hs]
  exact if_pos hsuppressible

theorem drops_of_switchedOff (hr : r.Assembled) (ht : t.Made) (h : r.switchedOff t = true)
    (f : Finding) : r.drops f t = true := by
  obtain ⟨reason, hreason⟩ := decide_of_switchedOff hr ht h f
  rw [drops, hreason]

end Resolver

/-! ### A run that saves no visit -/

/-- Visits a file, whether it switches the rule off or not, and decides about each finding. -/
def Task.runAnyway (t : Task) (tree : Tree) : TaskOutcome :=
  match t.rule.visit tree with
  | .error e => { notifications := [t.failure tree e] }
  | .ok found => {
      notifications := found.filterMap (t.warning? tree)
      visited := some found.length
      kept := found.filter (t.keeps tree) }

/-- The pass over a file in which every task visits it. -/
def FilePlan.runAnyway (p : FilePlan) (collectors : List Collector) (profiling : Bool)
    (time : TaskKey → Nat) : FileOutcome :=
  let outcomes := p.tasks.zipIdx.map fun (t, i) => (t, i, t.runAnyway p.tree)
  { notifications := outcomes.flatMap (·.2.2.notifications)
    profile := { records := if profiling then outcomes.filterMap (p.record? time) else [] }
    metrics := MetricTable.ofTree collectors p.tree
    batches := outcomes.filterMap p.batch? }

/-- The result of a run over files in which no marker saves a visit. -/
def Engine.analyzeAnyway (e : Engine) (trees : List Tree) : AnalysisResult :=
  let outcomes := (e.schedule trees).map fun p =>
    p.runAnyway e.collectors e.settings.profiling e.time
  e.finish (.ofBatches (outcomes.flatMap (·.batches))) outcomes

theorem Task.run_eq_runAnyway {t : Task} {tree : Tree}
    (h : t.rule.resolver.switchedOff tree = false) : t.run tree = t.runAnyway tree := by
  rw [run, h]
  rfl

theorem Task.kept_runAnyway {t : Task} {tree : Tree} (hrule : t.rule.resolver.Assembled)
    (htree : tree.Made) : (t.runAnyway tree).kept = (t.run tree).kept := by
  cases hoff : t.rule.resolver.switchedOff tree with
  | false => rw [run_eq_runAnyway hoff]
  | true =>
    have hdropped : ∀ f, t.keeps tree f = false := by
      intro f
      rw [keeps, Resolver.drops_of_switchedOff hrule htree hoff]
      rfl
    rw [run, if_pos hoff, runAnyway]
    cases t.rule.visit tree with
    | error e => rfl
    | ok found => exact List.filter_eq_nil_iff.mpr fun f _ => by simp [hdropped f]

theorem FilePlan.batches_runAnyway {p : FilePlan}
    (hrules : ∀ t ∈ p.tasks, t.rule.resolver.Assembled) (htree : p.tree.Made)
    (collectors : List Collector) (profiling : Bool) (time : TaskKey → Nat) :
    (p.runAnyway collectors profiling time).batches =
      (p.run collectors profiling time).batches := by
  change (p.tasks.zipIdx.map _).filterMap p.batch? = (p.tasks.zipIdx.map _).filterMap p.batch?
  rw [List.filterMap_map, List.filterMap_map]
  refine List.filterMap_congr fun x hx => ?_
  have hkept := Task.kept_runAnyway (hrules x.1 (List.fst_mem_of_mem_zipIdx hx)) htree
  simp only [Function.comp_apply, batch?, hkept]

theorem Engine.rule_of_mem_tasksFor {e : Engine} {tree : Tree} {t : Task}
    (h : t ∈ e.tasksFor tree) : ∃ set ∈ e.ruleSets, t.rule ∈ set.rules := by
  obtain ⟨x, hx, ht⟩ := List.mem_flatMap.mp h
  obtain ⟨y, hy, rfl⟩ := List.mem_map.mp ht
  exact ⟨x.1, List.fst_mem_of_mem_zipIdx hx,
    List.fst_mem_of_mem_zipIdx (List.mem_of_mem_filter hy)⟩

theorem Engine.findings_analyzeAnyway {e : Engine} {trees : List Tree}
    (hrules : ∀ set ∈ e.ruleSets, ∀ r ∈ set.rules, r.resolver.Assembled)
    (htrees : ∀ t ∈ trees, t.Made) :
    (e.analyzeAnyway trees).findings = (e.analyze trees).findings := by
  have hbatches : ((e.schedule trees).map fun p =>
      p.runAnyway e.collectors e.settings.profiling e.time).flatMap (·.batches) =
        e.batches trees := by
    rw [batches, outcomes, List.flatMap_map, List.flatMap_map]
    refine List.flatMap_congr fun p hp => ?_
    obtain ⟨x, hx, rfl⟩ := List.mem_map.mp hp
    refine FilePlan.batches_runAnyway (fun t ht => ?_) ?_ _ _ _
    · obtain ⟨set, hset, hrule⟩ := rule_of_mem_tasksFor ht
      exact hrules set hset t.rule hrule
    · exact htrees x.1 (List.fst_mem_of_mem_zipIdx hx)
  -- The visits leave further notifications and records, but findings come from the batches alone.
  have hstrict := Accumulator.strict_ofBatches (e.batches trees)
  rw [analyzeAnyway, analyze_eq_finish, hbatches, findings_finish e hstrict (.refl _),
    findings_finish e hstrict (.refl _)]

/-- Where a marker on the file node switches a rule off, the decision about any finding of the rule
is to suppress it, whatever node the finding is at; a run that visited such files all the same
would report the same findings in the same order. -/
theorem file_switch_agrees_with_decisions :
    (∀ {r : Resolver} {t : Tree}, r.Assembled → t.Made → r.switchedOff t = true →
      ∀ f : Finding, ∃ reason, r.decide f t = .suppressed reason) ∧
    ∀ {e : Engine} {trees : List Tree},
      (∀ set ∈ e.ruleSets, ∀ r ∈ set.rules, r.resolver.Assembled) → (∀ t ∈ trees, t.Made) →
      (e.analyzeAnyway trees).findings = (e.analyze trees).findings :=
  ⟨fun hr ht h f => Resolver.decide_of_switchedOff hr ht h f,
    fun hrules htrees => Engine.findings_analyzeAnyway hrules htrees⟩

/-! ### A rule that one of two files switches off -/

namespace MarkedFile

/-- A file whose marker addresses the rule. -/
def outline : Outline :=
  .node .file none [{ name := "Suppress", args := ["frost:LongMethod"] }] {}
    [.node .classType (some "A") [] {} []]

def tree : Tree := .ofOutline ⟨"A.kt"⟩ outline

def unmarked : Tree := .start ⟨"B.kt"⟩ {}

def descriptor : Descriptor :=
  { ruleSetId := "complexity", ruleId := "LongMethod", baseId := "LongMethod" }

/-- Reports twice, the second time at a node that neither file has. -/
def rule : Rule where
  visit ctx := .ok [ctx.finding 1 "long", ctx.finding 7 "long"]

def reporter : RuleInstance where
  descriptor := descriptor
  config := .empty
  resolver :=
    { rule := descriptor.qualifiedId
      suppressible := true
      targets := .ofRule descriptor
      suppressors := [.attachedReason, .marker (.ofRule descriptor)] }
  filter := {}
  rule := rule

/-- The finding at no node of the marked file. -/
def stray : Finding where
  ruleId := "LongMethod"
  ruleSetId := "complexity"
  severity := .warning
  message := "long"
  entity := Entity.ofNode tree 7

def engine : Engine := { ruleSets := [{ id := "complexity", rules := [reporter], filter := {} }] }

theorem switchedOff_tree : reporter.resolver.switchedOff tree = true := by decide +kernel

theorem length_findings : (engine.analyze [tree, unmarked]).findings.length = 2 := by
  rw [(engine.findings_analyze_perm [tree, unmarked]).length_eq]
  decide +kernel

end MarkedFile

open MarkedFile in
/-- The stray finding is suppressed by the marker on the file, and visiting the marked file adds
nothing to the two findings in the other one. -/
theorem file_switch_agrees_on_marked_file :
    tree.Made ∧ RuleInstance.create descriptor .empty rule = .ok reporter ∧
    reporter.resolver.switchedOff tree = true ∧
    (∃ found, reporter.visit tree = .ok found ∧ stray ∈ found) ∧ tree.node? 7 = none ∧
    (∃ reason, reporter.resolver.decide stray tree = .suppressed reason) ∧
    (engine.analyze [tree, unmarked]).findings.length = 2 ∧
    (engine.analyzeAnyway [tree, unmarked]).findings =
      (engine.analyze [tree, unmarked]).findings := by
  have hofRule : Resolver.ofRule descriptor .empty = .ok reporter.resolver := rfl
  have hresolver : reporter.resolver.Assembled := .forRule hofRule
  have hmade : tree.Made := .nested ⟨"A.kt"⟩ outline
  obtain ⟨hdecide, hfindings⟩ := file_switch_agrees_with_decisions
  refine ⟨hmade, rfl, switchedOff_tree, ⟨_, rfl, ?_⟩, rfl,
    hdecide hresolver hmade switchedOff_tree stray, length_findings, hfindings ?_ ?_⟩
  · exact List.mem_cons_of_mem _ List.mem_cons_self
  · simpa [engine] using hresolver
  · simpa using ⟨hmade, Tree.Made.started ⟨"B.kt"⟩ {}⟩

end CodeAudit
