import CodeAudit.Metrics
import CodeAudit.Proofs.Finding.Order
import CodeAudit.Proofs.Ordered.Table
import Mathlib.Algebra.BigOperators.Group.List.Basic
import Mathlib.Algebra.Ring.Int.Defs

namespace CodeAudit

open Ordered

namespace Metrics

/-- Adds counts to metrics, one after the other. -/
def addUp (m : Metrics) (counts : List (String × Int)) : Metrics :=
  counts.foldl (fun m c => Table.update compare c.1 (fun old => old.getD 0 + c.2) m) m

theorem strict_addUp {m : Metrics} (h : Table.Strict compare m) (counts : List (String × Int)) :
    Table.Strict compare (m.addUp counts) :=
  Table.strict_foldl_update Prod.fst _ counts h

theorem addUp_append (m : Metrics) (counts counts' : List (String × Int)) :
    m.addUp (counts ++ counts') = (m.addUp counts).addUp counts' :=
  List.foldl_append

theorem foldl_add_eq (counts : List (String × Int)) (old : Option Int) :
    counts.foldl (fun old c => some (old.getD 0 + c.2)) old =
      if counts.isEmpty then old else some (old.getD 0 + (counts.map (·.2)).sum) := by
  induction counts generalizing old with
  | nil => rfl
  | cons c counts ih =>
    rw [List.foldl_cons, ih]
    cases counts with
    | nil => simp
    | cons c' counts => simp [Int.add_assoc]

theorem get?_addUp {m : Metrics} (h : Table.Strict compare m) (counts : List (String × Int))
    (name : String) :
    Table.get? compare name (m.addUp counts) =
      let added := counts.filter fun c => compare name c.1 == .eq
      if added.isEmpty then Table.get? compare name m
      else some ((Table.get? compare name m).getD 0 + (added.map (·.2)).sum) := by
  rw [addUp, Table.get?_foldl_update Prod.fst (fun c old => old.getD 0 + c.2) counts name h]
  exact foldl_add_eq _ _

/-- The order in which counts are added makes no difference. -/
theorem addUp_of_perm {m : Metrics} (h : Table.Strict compare m)
    {counts counts' : List (String × Int)} (hperm : counts.Perm counts') :
    m.addUp counts = m.addUp counts' := by
  refine (strict_addUp h counts).ext (strict_addUp h counts') fun name => ?_
  have hadded := hperm.filter fun c => compare name c.1 == .eq
  rw [get?_addUp h, get?_addUp h]
  simp only [(hadded.map Prod.snd).sum_eq, hadded.isEmpty_eq]

theorem addUp_cons_cons {m : Metrics} (h : Table.Strict compare m) (name : String) (a b : Int)
    (counts : List (String × Int)) :
    m.addUp ((name, a) :: (name, b) :: counts) = m.addUp ((name, a + b) :: counts) := by
  simp only [addUp, List.foldl_cons]
  rw [Table.update_update _ _ _ h]
  simp only [Option.getD_some, Int.add_assoc]

end Metrics

namespace MetricTable

instance : Std.TransCmp keyOrder :=
  transCmp_then (transCmp_on (fun k : Path × String => k.1) Path.order)
    (transCmp_on (fun k : Path × String => k.2) compare)

def plus (e : (Path × String) × Int) (old : Option Int) : Int := old.getD 0 + e.2

theorem values_merge (t other : MetricTable) :
    (t.merge other).values =
      other.values.foldl (fun values e => Table.update keyOrder e.1 (plus e) values) t.values := by
  obtain ⟨entries⟩ := other
  change (entries.foldl (fun t e => t.add e.1.1 e.1.2 e.2) t).values = entries.foldl _ _
  induction entries generalizing t with
  | nil => rfl
  | cons e entries ih => exact ih (t.add e.1.1 e.1.2 e.2)

theorem values_foldl_merge (tables : List MetricTable) (t : MetricTable) :
    (tables.foldl merge t).values =
      (tables.flatMap (·.values)).foldl
        (fun values e => Table.update keyOrder e.1 (plus e) values) t.values := by
  induction tables generalizing t with
  | nil => rfl
  | cons table tables ih =>
    rw [List.foldl_cons, ih, values_merge, List.flatMap_cons, List.foldl_append]

/-- The table holds metrics of one file only, each of them once. -/
structure OfFile (path : Path) (t : MetricTable) : Prop where
  strict : Table.Strict keyOrder t.values
  own : ∀ e ∈ t.values, e.1.1 = path

theorem OfFile.add {path : Path} {t : MetricTable} (h : t.OfFile path) (metric : String)
    (value : Int) : (t.add path metric value).OfFile path where
  strict := Table.strict_update _ _ h.strict
  own := by
    intro e he
    rcases Table.mem_update he with hkey | ⟨e', he', hkey⟩
    · rw [hkey]
    · rw [hkey, h.own e' he']

theorem ofFile_ofTree (collectors : List Collector) (tree : Tree) :
    (ofTree collectors tree).OfFile tree.path := by
  have hstart : ({} : MetricTable).OfFile tree.path := ⟨.nil, by simp⟩
  unfold ofTree
  generalize collectors.flatMap (·.collect tree) = counts
  generalize ({} : MetricTable) = t at hstart ⊢
  induction counts generalizing t with
  | nil => exact hstart
  | cons count counts ih => exact ih (t.add tree.path count.1 count.2) (hstart.add _ _)

theorem foldl_merge_eq_of_perm (collectors : List Collector) {trees trees' : List Tree}
    (h : trees.Perm trees')
    (hpaths : trees.Pairwise fun a b => a.path.order b.path ≠ .eq) :
    (trees.map (ofTree collectors)).foldl merge {} =
      (trees'.map (ofTree collectors)).foldl merge {} := by
  have hkeys : ((trees.map (ofTree collectors)).flatMap (·.values)).Pairwise fun a b =>
      keyOrder a.1 b.1 ≠ .eq := by
    rw [List.pairwise_flatMap]
    constructor
    · intro table htable
      obtain ⟨tree, -, rfl⟩ := List.mem_map.mp htable
      exact (ofFile_ofTree collectors tree).strict.imp fun hlt => by simp [hlt]
    · rw [List.pairwise_map]
      refine hpaths.imp fun {s t} hst a ha b hb heq => hst ?_
      rw [← (ofFile_ofTree collectors s).own a ha, ← (ofFile_ofTree collectors t).own b hb]
      exact (Ordering.then_eq_eq.mp heq).1
  have hentries := (h.map (ofTree collectors)).flatMap_right (·.values)
  have hvalues := Table.foldl_update_eq_of_perm plus hentries hkeys
  change mk (List.foldl merge {} _).values = mk (List.foldl merge {} _).values
  rw [values_foldl_merge, values_foldl_merge]
  exact congrArg mk hvalues

/-! ### Sums over the files -/

/-- The entries without the files they are about. -/
def counts (t : MetricTable) : List (String × Int) := t.values.map fun e => (e.1.2, e.2)

theorem totals_eq_addUp (t : MetricTable) : t.totals = Metrics.addUp [] t.counts := by
  rw [totals, Metrics.addUp, counts, List.foldl_map]

section

variable {m : Metrics} (h : Table.Strict compare m)

include h

theorem addUp_counts_add (t : MetricTable) (file : Path) (metric : String) (value : Int) :
    m.addUp (t.add file metric value).counts = m.addUp (t.counts ++ [(metric, value)]) := by
  rw [Metrics.addUp_of_perm h (List.perm_append_singleton _ _)]
  obtain ⟨values⟩ := t
  induction values generalizing m with
  | nil => simp [add, counts, Table.update]
  | cons e values ih =>
    obtain ⟨key, number⟩ := e
    simp only [add, counts, Table.update]
    split
    · simp
    · rename_i heq
      -- The two paths may be written differently; the names are the same.
      have hname : metric = key.2 :=
        Std.LawfulEqCmp.eq_of_compare (Ordering.then_eq_eq.mp heq).2
      rw [List.map_cons, List.map_cons, Option.getD_some, hname, Metrics.addUp_cons_cons h,
        Int.add_comm]
    · have hhead : Table.Strict compare (m.addUp [(key.2, number)]) := Metrics.strict_addUp h _
      rw [List.map_cons, List.map_cons, Metrics.addUp_of_perm h (.swap _ _ _)]
      exact ih hhead

theorem addUp_counts_foldl_add {α : Type} (file : α → Path) (count : α → String × Int)
    (l : List α) (t : MetricTable) :
    m.addUp (l.foldl (fun t x => t.add (file x) (count x).1 (count x).2) t).counts =
      m.addUp (t.counts ++ l.map count) := by
  induction l generalizing t with
  | nil => rw [List.foldl_nil, List.map_nil, List.append_nil]
  | cons x l ih =>
    rw [List.foldl_cons, ih, Metrics.addUp_append, addUp_counts_add h, ← Metrics.addUp_append,
      List.append_assoc]
    rfl

theorem addUp_counts_ofTree (collectors : List Collector) (t : Tree) :
    m.addUp (ofTree collectors t).counts = m.addUp (collectors.flatMap (·.collect t)) := by
  have hadded := addUp_counts_foldl_add h (fun _ => t.path) id (collectors.flatMap (·.collect t)) {}
  rwa [List.map_id] at hadded

theorem addUp_counts_merge (t other : MetricTable) :
    m.addUp (t.merge other).counts = m.addUp (t.counts ++ other.counts) :=
  addUp_counts_foldl_add h (fun e : (Path × String) × Int => e.1.1) (fun e => (e.1.2, e.2))
    other.values t

theorem addUp_counts_foldl_merge (tables : List MetricTable) (t : MetricTable) :
    m.addUp (tables.foldl merge t).counts = m.addUp (t.counts ++ tables.flatMap counts) := by
  induction tables generalizing t with
  | nil => rw [List.foldl_nil, List.flatMap_nil, List.append_nil]
  | cons table tables ih =>
    rw [List.foldl_cons, ih, Metrics.addUp_append, addUp_counts_merge h, ← Metrics.addUp_append,
      List.append_assoc]
    rfl

theorem addUp_flatMap_counts (collectors : List Collector) (trees : List Tree) :
    m.addUp ((trees.map (ofTree collectors)).flatMap counts) =
      m.addUp (trees.flatMap fun t => collectors.flatMap (·.collect t)) := by
  induction trees generalizing m with
  | nil => rfl
  | cons t trees ih =>
    rw [List.map_cons, List.flatMap_cons, List.flatMap_cons, Metrics.addUp_append,
      Metrics.addUp_append, addUp_counts_ofTree h]
    exact ih (Metrics.strict_addUp h _)

end

/-- In whatever order tables are merged, and whatever keys they share, the sums are the same. -/
theorem totals_foldl_merge_of_perm {tables tables' : List MetricTable} (h : tables.Perm tables') :
    (tables.foldl merge {}).totals = (tables'.foldl merge {}).totals := by
  rw [totals_eq_addUp, totals_eq_addUp, addUp_counts_foldl_merge .nil,
    addUp_counts_foldl_merge .nil]
  exact Metrics.addUp_of_perm .nil ((h.flatMap_right counts).append_left _)

theorem totals_foldl_merge (collectors : List Collector) (trees : List Tree) :
    ((trees.map (ofTree collectors)).foldl merge {}).totals =
      Metrics.addUp [] (trees.flatMap fun t => collectors.flatMap (·.collect t)) := by
  rw [totals_eq_addUp, addUp_counts_foldl_merge .nil]
  exact addUp_flatMap_counts .nil collectors trees

end MetricTable

end CodeAudit
