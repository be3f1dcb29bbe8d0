import CodeAudit.Proofs.Engine.Conservation
import CodeAudit.Proofs.Metrics
import CodeAudit.Proofs.Ordered.TextSet
import CodeAudit.Proofs.Success

namespace CodeAudit

open Ordered

/-! ### Paths -/

theorem Finding.components_of_order {a b : Finding} (h : a.order b = .eq) :
    a.location.path.components = b.location.path.components :=
  Path.order_eq_iff.mp (Ordering.then_eq_eq.mp h).1

/-- The instance reports nothing but places in the file it visits. -/
def RuleInstance.StaysInFile (r : RuleInstance) : Prop :=
  ∀ (tree : Tree) (found : List Finding), r.visit tree = .ok found →
    ∀ f ∈ found, f.location.path.components = tree.path.components

theorem RuleInstance.staysInFile_of_perNode {r : RuleInstance}
    (message : Tree → Node → Option String) (h : r.rule = .perNode message) : r.StaysInFile := by
  intro tree found hvisit f hf
  obtain ⟨raw, hraw, rfl⟩ := Success.of_map hvisit
  rw [h] at hraw
  obtain rfl := Except.ok.inj hraw
  obtain ⟨g, hg, rfl⟩ := List.mem_map.mp hf
  obtain ⟨id, -, hid⟩ := List.mem_filterMap.mp hg
  obtain ⟨node, -, hnode⟩ := Option.bind_eq_some_iff.mp hid
  obtain ⟨m, -, rfl⟩ := Option.map_eq_some_iff.mp hnode
  rfl

theorem Pairing.components_of_reported {u : Pairing} (hrule : u.rule.StaysInFile) {f : Finding}
    (hf : f ∈ u.reported) : f.location.path.components = u.tree.path.components := by
  unfold reported visit? at hf
  split at hf
  · rename_i found hvisit
    split at hvisit
    · exact hrule u.tree found (Option.some.inj hvisit) f (List.mem_filter.mp hf).1
    · cases hvisit
  · cases hf

namespace Engine

variable (e : Engine)

/-! ### Findings by rule set -/

def ruleSetNames : TextSet := .ofList (e.ruleSets.map (·.id))

/-- What the rule sets of one name report: file by file, and for each file rule by rule. -/
def reportsOf (trees : List Tree) (name : String) : List Finding :=
  (e.pairings trees).flatMap fun u => if u.ruleSet.id == name then u.reported else []

theorem contains_ruleSetNames {trees : List Tree} {b : Batch} (h : b ∈ e.batches trees) :
    e.ruleSetNames.contains b.ruleSet = true := by
  obtain ⟨o, ho, hb⟩ := List.mem_flatMap.mp h
  obtain ⟨p, hp, rfl⟩ := List.mem_map.mp ho
  obtain ⟨⟨tree, file⟩, -, rfl⟩ := List.mem_map.mp hp
  obtain ⟨x, hx, hbatch⟩ := List.mem_filterMap.mp hb
  obtain ⟨⟨t, i⟩, ht, rfl⟩ := List.mem_map.mp hx
  have htask : t ∈ e.tasksFor tree := List.mem_of_getElem? (List.mem_zipIdx_iff_getElem?.mp ht)
  have hset : t.ruleSet ∈ e.ruleSets :=
    List.mem_of_getElem? (e.place_of_mem_tasksFor htask).1
  rw [(FilePlan.of_batch? hbatch).1, ruleSetNames, TextSet.contains_ofList,
    List.contains_iff_mem]
  exact List.mem_map_of_mem hset

theorem sortBy_batches (trees : List Tree) :
    sortBy Batch.order (e.batches trees) =
      e.ruleSetNames.toList.flatMap fun name =>
        (e.batches trees).filter fun b => b.ruleSet == name := by
  have hsorted := ascending_sortBy Batch.order (e.batches trees)
  have hnames : Ascending (fun a b : Batch => compare a.ruleSet b.ruleSet)
      (sortBy Batch.order (e.batches trees)) := by
    refine hsorted.imp fun {a b} hab => ?_
    rw [Batch.order] at hab
    cases hcompare : compare a.ruleSet b.ruleSet <;> simp_all
  have hcovered : ∀ b ∈ sortBy Batch.order (e.batches trees),
      e.ruleSetNames.contains b.ruleSet = true := by
    intro b hb
    exact e.contains_ruleSetNames ((sortBy_perm _ _).mem_iff.mp hb)
  rw [← e.ruleSetNames.flatMap_filter_eq hnames hcovered]
  apply List.flatMap_congr
  intro name _
  rw [filter_sortBy]
  -- The batches came in by place, and here they all have one rule set.
  apply sortBy_of_ascending
  apply List.Pairwise.imp_of_mem _ ((e.ascending_batches trees).filter _)
  intro a b ha hb hab
  have ha' := beq_iff_eq.mp (List.mem_filter.mp ha).2
  have hb' := beq_iff_eq.mp (List.mem_filter.mp hb).2
  simp [Batch.order, ha', hb', hab]

/-- The findings of a run: rule set by rule set in the order of their names, before they are put
into the order of the report. -/
theorem findings_analyze_by_ruleSet (trees : List Tree) :
    (e.analyze trees).findings =
      Finding.sort (e.ruleSetNames.toList.flatMap (e.reportsOf trees)) := by
  have hreports (name : String) := e.findings_batches trees fun id => id == name
  rw [findings_analyze, sortBy_batches, List.flatMap_assoc]
  simp only [hreports]
  rfl

/-! ### Other orders -/

variable {e}

theorem reportsOf_eq (trees : List Tree) (name : String) :
    e.reportsOf trees name = trees.flatMap fun tree =>
      (e.ruleSets.filter fun s => s.id == name).flatMap fun ruleSet => ruleSet.rules.flatMap
        fun rule => Pairing.reported { tree, ruleSet, rule } := by
  unfold reportsOf pairings
  rw [List.flatMap_assoc]
  apply List.flatMap_congr
  intro tree _
  rw [List.flatMap_assoc, ← flatMap_filter_of_nil (p := fun s => s.id == name)]
  · apply List.flatMap_congr
    intro s hs
    rw [List.flatMap_map]
    simp [(List.mem_filter.mp hs).2]
  · intro s hs
    rw [List.flatMap_map]
    simp [hs]

theorem reportsOf_of_perm_ruleSets (hnames : (e.ruleSets.map (·.id)).Nodup) {sets : List RuleSet}
    (h : sets.Perm e.ruleSets) (trees : List Tree) (name : String) :
    ({ e with ruleSets := sets } : Engine).reportsOf trees name = e.reportsOf trees name := by
  have hone : e.ruleSets.Pairwise fun s t => ¬((s.id == name) = true ∧ (t.id == name) = true) := by
    rw [List.Nodup, List.pairwise_map] at hnames
    refine hnames.imp fun {s t} hst => ?_
    rintro ⟨hs, ht⟩
    exact hst ((beq_iff_eq.mp hs).trans (beq_iff_eq.mp ht).symm)
  rw [reportsOf_eq, reportsOf_eq]
  change (trees.flatMap fun tree => (sets.filter _).flatMap _) = _
  rw [filter_eq_of_perm h.symm hone]

theorem level_reportsOf_of_perm_trees
    (hrules : ∀ s ∈ e.ruleSets, ∀ r ∈ s.rules, r.StaysInFile) {trees trees' : List Tree}
    (hpaths : trees.Pairwise fun a b => a.path.components ≠ b.path.components)
    (h : trees'.Perm trees) (name : String) (f : Finding) :
    level Finding.order f (e.reportsOf trees' name) =
      level Finding.order f (e.reportsOf trees name) := by
  let reports (tree : Tree) : List Finding :=
    (e.ruleSets.filter fun s => s.id == name).flatMap fun ruleSet => ruleSet.rules.flatMap
      fun rule => Pairing.reported { tree, ruleSet, rule }
  -- A finding that is equal to `f` in the order has its path, and at most one file does.
  let holds (tree : Tree) : Bool := tree.path.components == f.location.path.components
  have hfile (tree : Tree) (hother : holds tree = false) :
      level Finding.order f (reports tree) = [] := by
    rw [level, List.filter_eq_nil_iff]
    intro g hg horder
    obtain ⟨s, hs, hg⟩ := List.mem_flatMap.mp hg
    obtain ⟨r, hr, hg⟩ := List.mem_flatMap.mp hg
    have hplace := Pairing.components_of_reported
      (hrules s (List.mem_filter.mp hs).1 r hr) hg
    rw [← Finding.components_of_order (beq_iff_eq.mp horder)] at hplace
    simp [holds, hplace] at hother
  have hcut (trees : List Tree) : level Finding.order f (e.reportsOf trees name) =
      (trees.filter holds).flatMap fun tree => level Finding.order f (reports tree) := by
    rw [flatMap_filter_of_nil _ hfile, reportsOf_eq, level, List.filter_flatMap]
    rfl
  have hone : trees.Pairwise fun s t => ¬(holds s = true ∧ holds t = true) := by
    refine hpaths.imp fun {s t} hst => ?_
    rintro ⟨hs, ht⟩
    exact hst ((beq_iff_eq.mp hs).trans (beq_iff_eq.mp ht).symm)
  rw [hcut, hcut, filter_eq_of_perm h.symm hone]

/-- Where rule sets have different names, files have different paths and rules report about the
files they visit, the findings and the metrics of a run are the same for every order of the rule
sets and of the files. -/
theorem report_of_permuted_input (hnames : (e.ruleSets.map (·.id)).Nodup)
    (hrules : ∀ s ∈ e.ruleSets, ∀ r ∈ s.rules, r.StaysInFile) {trees : List Tree}
    (hpaths : trees.Pairwise fun a b => a.path.components ≠ b.path.components)
    {sets : List RuleSet} (hsets : sets.Perm e.ruleSets) {trees' : List Tree}
    (htrees : trees'.Perm trees) :
    let e' : Engine := { e with ruleSets := sets }
    (e'.analyze trees').findings = (e.analyze trees).findings ∧
      (e'.analyze trees').metrics = (e.analyze trees).metrics := by
  intro e'
  constructor
  · have hsame : e'.ruleSetNames = e.ruleSetNames :=
      TextSet.ofList_eq_of_mem_iff fun _ => (hsets.map _).mem_iff
    have hreports : e'.reportsOf trees' = e.reportsOf trees' :=
      funext (reportsOf_of_perm_ruleSets hnames hsets trees')
    rw [findings_analyze_by_ruleSet, findings_analyze_by_ruleSet, hsame, hreports]
    refine (sortBy_eq_sortBy_iff Finding.order _ _).mpr fun f => ?_
    rw [level, level, List.filter_flatMap, List.filter_flatMap]
    exact List.flatMap_congr fun name _ =>
      level_reportsOf_of_perm_trees hrules hpaths htrees name f
  · rw [metrics_analyze, metrics_analyze]
    refine congrArg MetricTable.totals (MetricTable.foldl_merge_eq_of_perm _ htrees ?_)
    refine (htrees.pairwise_iff fun hab heq => hab (Std.OrientedCmp.eq_symm heq)).mpr ?_
    exact hpaths.imp fun hne heq => hne (Path.order_eq_iff.mp heq)

/-! ### Two rule sets with the same rule -/

namespace Twins

/-- Reports every node, with the severity of its rule set. -/
def reporter (set : String) (severity : Severity) : RuleInstance where
  descriptor := { ruleSetId := set, ruleId := "Same", baseId := "Same", severity }
  config := .empty
  resolver := { rule := "Same", suppressible := true, targets := ⟨[]⟩, suppressors := [] }
  filter := {}
  rule := .perNode fun _ _ => some "reported"

theorem staysInFile_reporter (set : String) (severity : Severity) :
    (reporter set severity).StaysInFile :=
  RuleInstance.staysInFile_of_perNode (fun _ _ => some "reported") rfl

def ruleSet (set : String) (severity : Severity) : RuleSet :=
  { id := set, rules := [reporter set severity], filter := {} }

def engine : Engine :=
  { ruleSets := [ruleSet "style" .error, ruleSet "naming" .info], collectors := [.files] }

def file (name : String) : Tree := { path := ⟨name⟩, nodes := #[{ kind := .file }] }

def files : List Tree := [file "b.kt", file "a.kt"]

end Twins

open Twins in
/-- The rule sets report the same about each file, but for the severity, which the order of the
report does not look at; and still both orders of the input give one report. -/
theorem report_of_permuted_twins :
    (engine.ruleSets.map (·.id)).Nodup ∧
    (∀ s ∈ engine.ruleSets, ∀ r ∈ s.rules, r.StaysInFile) ∧
    (files.Pairwise fun a b => a.path.components ≠ b.path.components) ∧
    ((engine.analyze files).findings.map fun f => (f.location.path.text, f.severity)).Perm
      [("b.kt", .error), ("b.kt", .info), ("a.kt", .error), ("a.kt", .info)] ∧
    let e' : Engine := { engine with ruleSets := engine.ruleSets.reverse }
    (e'.analyze files.reverse).findings = (engine.analyze files).findings ∧
      (e'.analyze files.reverse).metrics = (engine.analyze files).metrics := by
  have hnames : (engine.ruleSets.map (·.id)).Nodup := by decide
  have hrules : ∀ s ∈ engine.ruleSets, ∀ r ∈ s.rules, r.StaysInFile := by
    simp [engine, ruleSet, staysInFile_reporter]
  have hpaths : files.Pairwise fun a b => a.path.components ≠ b.path.components := by decide
  exact ⟨hnames, hrules, hpaths, (engine.findings_analyze_perm files).map _,
    report_of_permuted_input hnames hrules hpaths (List.reverse_perm _) (List.reverse_perm _)⟩

end Engine

end CodeAudit
