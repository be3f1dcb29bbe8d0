import CodeAudit.Proofs.Engine.Assembly
import CodeAudit.Proofs.Metrics
import CodeAudit.Proofs.Tree.Census
import Mathlib.Algebra.Order.BigOperators.Group.List
import Mathlib.Algebra.Order.Ring.Nat

namespace CodeAudit

/-! ### The collectors of every run -/

theorem sum_map_eq_iff {α : Type} {f g : α → Nat} {l : List α} (hle : ∀ x ∈ l, f x ≤ g x) :
    (l.map f).sum = (l.map g).sum ↔ ∀ x ∈ l, f x = g x := by
  induction l with
  | nil => simp
  | cons x l ih =>
    rw [List.forall_mem_cons] at hle
    have hrest : (l.map f).sum ≤ (l.map g).sum := List.sum_le_sum hle.2
    have hhead := hle.1
    rw [List.forall_mem_cons, ← ih hle.2]
    simp only [List.map_cons, List.sum_cons]
    omega

namespace Metrics

/-- The metrics of the collectors of every run, in the order of their names. -/
def ofSums (classes files functions loc properties : Int) : Metrics := [
  ("classes", classes), ("files", files), ("functions", functions), ("loc", loc),
  ("properties", properties)]

def kindGroups : List (List NodeKind) := [[.classType, .object], [.function], [.property]]

/-- The metrics of some files when their nodes of some kinds are counted in a given way. -/
def ofCount (count : Tree → List NodeKind → Nat) (trees : List Tree) : Metrics :=
  let sum (kinds : List NodeKind) : Nat := (trees.map fun t => count t kinds).sum
  ofSums (sum [.classType, .object]) trees.length (sum [.function])
    ((trees.map (·.lineCount)).sum : Nat) (sum [.property])

variable (classes files functions loc properties : Int) (t : Tree)

theorem addUp_ofSums : (ofSums classes files functions loc properties).addUp
      (Collector.defaults.flatMap (·.collect t)) =
    ofSums (classes + Collector.countKinds t [.classType, .object]) (files + 1)
      (functions + Collector.countKinds t [.function])
      (loc + Int.bmod t.lineCount (Number.pow2 64))
      (properties + Collector.countKinds t [.property]) := by
  simp (disch := decide) [addUp, Collector.defaults, Collector.files, Collector.lines,
    Collector.declarations, ofSums, Table.update_cons_of_gt, Table.update_cons_self]

theorem addUp_nil : addUp [] (Collector.defaults.flatMap (·.collect t)) =
    (ofSums 0 0 0 0 0).addUp (Collector.defaults.flatMap (·.collect t)) := by
  rw [addUp_ofSums]
  simp (disch := decide) [addUp, Collector.defaults, Collector.files, Collector.lines,
    Collector.declarations, ofSums, Table.update_nil, Table.update_cons_of_gt,
    Table.update_cons_of_lt]

theorem bmod_eq {n : Nat} (h : n < Number.pow2 63) : (n : Int).bmod (Number.pow2 64) = n := by
  have hdouble : Number.pow2 64 = 2 * Number.pow2 63 := rfl
  exact Int.bmod_eq_of_le_mul_two (by omega) (by omega)

theorem addUp_defaults {trees : List Tree} (hobtained : ∀ t ∈ trees, t.Obtained)
    (hlines : ∀ t ∈ trees, t.lineCount < Number.pow2 63) :
    (ofSums classes files functions loc properties).addUp
        (trees.flatMap fun t => Collector.defaults.flatMap (·.collect t)) =
      ofSums (classes + (trees.map (·.mooredCensus [.classType, .object])).sum)
        (files + trees.length)
        (functions + (trees.map (·.mooredCensus [.function])).sum)
        (loc + ((trees.map (·.lineCount)).sum : Nat))
        (properties + (trees.map (·.mooredCensus [.property])).sum) := by
  induction trees generalizing classes files functions loc properties with
  | nil => simp [addUp]
  | cons t trees ih =>
    rw [List.forall_mem_cons] at hobtained hlines
    rw [List.flatMap_cons, addUp_append, addUp_ofSums, ih _ _ _ _ _ hobtained.2 hlines.2,
      bmod_eq hlines.1]
    simp only [hobtained.1.countKinds_eq, List.map_cons, List.sum_cons, List.length_cons]
    push_cast
    simp only [Int.add_assoc, Int.add_comm 1]

theorem ofCount_eq_iff {count count' : Tree → List NodeKind → Nat} {trees : List Tree}
    (hle : ∀ t ∈ trees, ∀ kinds, count t kinds ≤ count' t kinds) :
    ofCount count trees = ofCount count' trees ↔
      ∀ t ∈ trees, ∀ kinds ∈ kindGroups, count t kinds = count' t kinds := by
  have hsums (kinds : List NodeKind) :
      (trees.map fun t => count t kinds).sum = (trees.map fun t => count' t kinds).sum ↔
        ∀ t ∈ trees, count t kinds = count' t kinds :=
    sum_map_eq_iff fun t ht => hle t ht kinds
  simp only [ofCount, ofSums, kindGroups, List.cons.injEq, Prod.mk.injEq, Int.ofNat_inj, hsums,
    true_and, and_true, List.forall_mem_cons]
  constructor
  · rintro ⟨hclasses, hfunctions, hproperties⟩ t ht
    exact ⟨hclasses t ht, hfunctions t ht, hproperties t ht, by simp⟩
  · intro hall
    exact ⟨fun t ht => (hall t ht).1, fun t ht => (hall t ht).2.1, fun t ht => (hall t ht).2.2.1⟩

end Metrics

/-! ### The metrics of a run -/

namespace Engine

theorem metrics_eq_addUp (e : Engine) (trees : List Tree) :
    (e.analyze trees).metrics =
      Metrics.addUp [] (trees.flatMap fun t => e.collectors.flatMap (·.collect t)) := by
  rw [metrics_analyze, MetricTable.totals_foldl_merge]

theorem metrics_finish_of_perm (e : Engine) {trees : List Tree} {os : List FileOutcome}
    (h : os.Perm (e.outcomes trees)) (acc : Accumulator) :
    (e.finish acc os).metrics = (e.analyze trees).metrics := by
  rw [analyze_eq_finish, metrics_finish, metrics_finish]
  exact MetricTable.totals_foldl_merge_of_perm (h.map _)

theorem metrics_eq_ofCount {e : Engine} (hcollectors : e.collectors = Collector.defaults)
    {trees : List Tree} (hne : trees ≠ []) (hobtained : ∀ t ∈ trees, t.Obtained)
    (hlines : ∀ t ∈ trees, t.lineCount < Number.pow2 63) :
    (e.analyze trees).metrics = .ofCount Tree.mooredCensus trees := by
  obtain ⟨t, trees, rfl⟩ := List.exists_cons_of_ne_nil hne
  have hstart : Metrics.addUp [] ((t :: trees).flatMap fun t =>
        Collector.defaults.flatMap (·.collect t)) =
      (Metrics.ofSums 0 0 0 0 0).addUp ((t :: trees).flatMap fun t =>
        Collector.defaults.flatMap (·.collect t)) := by
    rw [List.flatMap_cons, Metrics.addUp_append, Metrics.addUp_append, Metrics.addUp_nil]
  rw [metrics_eq_addUp, hcollectors, hstart, Metrics.addUp_defaults _ _ _ _ _ hobtained hlines]
  simp [Metrics.ofCount]

/-- With the collectors of every run the metrics are the numbers of files, of their lines, and of
the classes, functions and properties from which a climb leads to the file node, in whatever order
the tables of the files are merged and whatever paths are the same. They are a direct count of all
nodes exactly where none of the counted nodes hangs below a node that is its own parent. -/
theorem metrics_eq_census_iff (e : Engine) (hcollectors : e.collectors = Collector.defaults)
    {trees : List Tree} (hne : trees ≠ []) (hobtained : ∀ t ∈ trees, t.Obtained)
    (hlines : ∀ t ∈ trees, t.lineCount < Number.pow2 63) :
    (∀ (acc : Accumulator) (os : List FileOutcome), os.Perm (e.outcomes trees) →
      (e.finish acc os).metrics = (e.analyze trees).metrics) ∧
    (e.analyze trees).metrics = .ofCount Tree.mooredCensus trees ∧
    ((e.analyze trees).metrics = .ofCount Tree.census trees ↔
      ∀ t ∈ trees, ∀ id < t.size,
        t.kindIs [NodeKind.classType, .object, .function, .property].contains id = true →
          t.Grounded id) := by
  have hmetrics := metrics_eq_ofCount hcollectors hne hobtained hlines
  refine ⟨fun acc os hos => e.metrics_finish_of_perm hos acc, hmetrics, ?_⟩
  rw [hmetrics, Metrics.ofCount_eq_iff fun t _ => t.mooredCensus_le]
  refine forall₂_congr fun t ht => ?_
  simp only [(hobtained t ht).mooredCensus_eq_iff]
  -- A node of a counted kind is one of the kinds of some group.
  change _ ↔ ∀ id < t.size, t.kindIs Metrics.kindGroups.flatten.contains id = true → t.Grounded id
  simp only [Tree.kindIs_flatten]
  constructor
  · rintro hall id hid ⟨kinds, hkinds, hkind⟩
    exact hall kinds hkinds id hid hkind
  · intro hall kinds hkinds id hid hkind
    exact hall id hid ⟨kinds, hkinds, hkind⟩

/-- The class is the parent of itself: it is in the tree, and no walk comes by it. -/
theorem metrics_eq_census_iff_ownParent :
    ∃ t, Tree.build? ⟨"A.kt"⟩ { startLine := 1, endLine := 3 }
        [.add 1 .classType (some "A") { startLine := 1, endLine := 2 }] = some t ∧
      (({ collectors := Collector.defaults } : Engine).analyze [t]).metrics = .ofSums 0 1 0 3 0 ∧
      (({ collectors := Collector.defaults } : Engine).analyze [t]).metrics ≠
        .ofCount Tree.census [t] := by
  obtain ⟨t, hbuild, hmoored, hlines, hsize, hclass, hown⟩ :
      ∃ t, Tree.build? ⟨"A.kt"⟩ { startLine := 1, endLine := 3 }
          [.add 1 .classType (some "A") { startLine := 1, endLine := 2 }] = some t ∧
        Metrics.ofCount Tree.mooredCensus [t] = .ofSums 0 1 0 3 0 ∧
        t.lineCount < Number.pow2 63 ∧ t.size = 2 ∧
        t.kindIs [NodeKind.classType, .object, .function, .property].contains 1 = true ∧
        t.parent? 1 = some 1 :=
    ⟨_, rfl, rfl, by decide, rfl, rfl, rfl⟩
  obtain ⟨-, hmetrics, hiff⟩ :=
    metrics_eq_census_iff { collectors := Collector.defaults } rfl (List.cons_ne_nil t [])
      (List.forall_mem_singleton.mpr (.built hbuild)) (List.forall_mem_singleton.mpr hlines)
  refine ⟨t, hbuild, hmetrics.trans hmoored, fun hcensus => ?_⟩
  have hgrounded := hiff.mp hcensus t (List.mem_singleton_self t) 1 (by omega) hclass
  exact hgrounded 1 .here hown

end Engine

end CodeAudit
