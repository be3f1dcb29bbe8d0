import CodeAudit.Engine.Basic
import CodeAudit.Proofs.Finding.Order
import CodeAudit.Proofs.Ordered.Table
import Mathlib.Data.List.Basic

namespace CodeAudit

open Ordered

instance : Std.TransCmp TaskKey.order :=
  transCmp_then (transCmp_on (fun k : TaskKey => k.1) compare)
    (transCmp_on (fun k : TaskKey => k.2) compare)

namespace Batch

/-- Rule sets in the order of their names, then the places in the run. -/
def order (a b : Batch) : Ordering :=
  (compare a.ruleSet b.ruleSet).then (TaskKey.order a.key b.key)

instance : Std.TransCmp Batch.order :=
  transCmp_then (transCmp_on Batch.ruleSet compare) (transCmp_on Batch.key TaskKey.order)

end Batch

/-- A finding with the rule set and the place it came in under. -/
structure Slot where
  ruleSet : String
  key : TaskKey
  finding : Finding

namespace Slot

def order (a b : Slot) : Ordering :=
  (compare a.ruleSet b.ruleSet).then (TaskKey.order a.key b.key)

instance : Std.TransCmp Slot.order :=
  transCmp_then (transCmp_on Slot.ruleSet compare) (transCmp_on Slot.key TaskKey.order)

end Slot

namespace Batch

def slots (b : Batch) : List Slot := b.findings.map fun f => ⟨b.ruleSet, b.key, f⟩

theorem ascending_slots {bs : List Batch} (h : Ascending order bs) :
    Ascending Slot.order (bs.flatMap slots) := by
  unfold Ascending
  rw [List.pairwise_flatMap]
  constructor
  · intro b _
    rw [slots, List.pairwise_map]
    exact List.pairwise_of_forall fun x y => by simp [Slot.order, TaskKey.order]
  · refine h.imp fun {a b} hab => ?_
    intro x hx y hy
    obtain ⟨f, -, rfl⟩ := List.mem_map.mp hx
    obtain ⟨g, -, rfl⟩ := List.mem_map.mp hy
    exact hab

theorem level_slots (bs : List Batch) (s : Slot) :
    level Slot.order s (bs.flatMap slots) =
      (level order ⟨s.ruleSet, s.key, []⟩ bs).flatMap slots := by
  apply filter_flatMap_of_blocks
  intro b _ y hy
  obtain ⟨f, -, rfl⟩ := List.mem_map.mp hy
  rfl

end Batch

namespace Accumulator

def entryOrder (a b : TaskKey × Finding) : Ordering := TaskKey.order a.1 b.1

instance : Std.TransCmp entryOrder := transCmp_on Prod.fst TaskKey.order

/-- What is read out of an accumulator, rule set by rule set. -/
def slots (acc : Accumulator) : List Slot :=
  acc.flatMap fun x => (sortBy entryOrder x.2).map fun e => ⟨x.1, e.1, e.2⟩

theorem map_finding_slots (acc : Accumulator) :
    acc.slots.map (·.finding) = acc.flatMap fun x => inOrder x.2 := by
  unfold slots
  rw [List.map_flatMap]
  simp only [List.map_map]
  rfl

theorem strict_add {acc : Accumulator} (b : Batch) (h : Table.Strict compare acc) :
    Table.Strict compare (acc.add b) :=
  Table.strict_update _ _ h

theorem strict_foldl_add {acc : Accumulator} (bs : List Batch) (h : Table.Strict compare acc) :
    Table.Strict compare (bs.foldl add acc) := by
  induction bs generalizing acc with
  | nil => exact h
  | cons b bs ih => exact ih (strict_add b h)

theorem strict_ofBatches (bs : List Batch) : Table.Strict compare (ofBatches bs) :=
  strict_foldl_add bs .nil

theorem get?_foldl_add {acc : Accumulator} (i : String) (bs : List Batch)
    (h : Table.Strict compare acc) :
    (Table.get? compare i (bs.foldl add acc)).getD [] =
      (Table.get? compare i acc).getD [] ++
        (bs.filter fun b => compare i b.ruleSet == .eq).flatMap fun b =>
          b.findings.map (b.key, ·) := by
  induction bs generalizing acc with
  | nil => simp
  | cons b bs ih =>
    rw [List.foldl_cons, ih (strict_add b h), add, Table.get?_append i b.ruleSet _ h,
      List.append_assoc]
    by_cases hb : compare i b.ruleSet = .eq
    · rw [if_pos hb, List.filter_cons_of_pos (by simp [hb]), List.flatMap_cons]
    · rw [if_neg hb, List.filter_cons_of_neg (by simp [hb]), List.nil_append]

theorem ascending_slots {acc : Accumulator} (h : Table.Strict compare acc) :
    Ascending Slot.order acc.slots := by
  unfold Ascending slots
  rw [List.pairwise_flatMap]
  constructor
  · intro x _
    rw [List.pairwise_map]
    refine (ascending_sortBy entryOrder x.2).imp fun {a b} hab => ?_
    simpa [Slot.order, entryOrder] using hab
  · refine h.imp fun {x y} hxy => ?_
    intro a ha b hb
    obtain ⟨a', -, rfl⟩ := List.mem_map.mp ha
    obtain ⟨b', -, rfl⟩ := List.mem_map.mp hb
    rw [Slot.order, hxy]
    rfl

theorem level_slots {acc : Accumulator} (h : Table.Strict compare acc) (s : Slot) :
    level Slot.order s acc.slots =
      (((Table.get? compare s.ruleSet acc).getD []).filter fun e =>
        TaskKey.order s.key e.1 == .eq).map fun e => ⟨s.ruleSet, e.1, e.2⟩ := by
  -- A level is cut out in two steps: first the rule set, then the place in the run.
  have hsplit : level Slot.order s acc.slots =
      (acc.slots.filter fun y => compare s.ruleSet y.ruleSet == .eq).filter
        fun y => TaskKey.order s.key y.key == .eq := by
    rw [List.filter_filter, level]
    congr 1
    funext y
    rw [Bool.eq_iff_iff]
    simp [Slot.order, and_comm]
  have hset : (acc.slots.filter fun y => compare s.ruleSet y.ruleSet == .eq) =
      (sortBy entryOrder ((Table.get? compare s.ruleSet acc).getD [])).map
        fun e => ⟨s.ruleSet, e.1, e.2⟩ := by
    unfold slots
    rw [filter_flatMap_of_blocks (q := fun x => compare s.ruleSet x.1 == .eq) (by
      intro x _ y hy
      obtain ⟨e, -, rfl⟩ := List.mem_map.mp hy
      rfl), Table.filter_key h]
    cases Table.get? compare s.ruleSet acc with
    | none => simp [sortBy]
    | some es => simp
  rw [hsplit, hset, List.filter_map]
  congr 1
  exact level_sortBy entryOrder (s.key, s.finding) _

theorem get?_ofBatches (i : String) (bs : List Batch) :
    (Table.get? compare i (ofBatches bs)).getD [] =
      (bs.filter fun b => compare i b.ruleSet == .eq).flatMap fun b => b.findings.map (b.key, ·) :=
  get?_foldl_add i bs .nil

theorem slots_ofBatches (bs : List Batch) :
    (ofBatches bs).slots = (sortBy Batch.order bs).flatMap Batch.slots := by
  -- Both sides ascend, so it is enough that they agree at each rule set and place.
  apply eq_of_level_eq Slot.order (ascending_slots (strict_ofBatches bs))
    (Batch.ascending_slots (ascending_sortBy Batch.order bs))
  intro s
  rw [level_slots (strict_ofBatches bs), get?_ofBatches, Batch.level_slots, level_sortBy]
  rw [filter_flatMap_of_blocks (q := fun b => TaskKey.order s.key b.key == .eq) (by
    intro b _ e he
    obtain ⟨f, -, rfl⟩ := List.mem_map.mp he
    rfl), List.map_flatMap, List.filter_filter, level]
  have hlevel : (fun b : Batch => (⟨s.ruleSet, s.key, []⟩ : Batch).order b == .eq) =
      fun b => TaskKey.order s.key b.key == .eq && compare s.ruleSet b.ruleSet == .eq := by
    funext b
    rw [Bool.eq_iff_iff]
    simp [Batch.order, and_comm]
  rw [hlevel]
  -- The same batches in the same order; a slot names the rule set of its batch.
  apply List.flatMap_congr
  intro b hb
  have hset : s.ruleSet = b.ruleSet := by
    simp only [List.mem_filter, Bool.and_eq_true, beq_iff_eq] at hb
    exact Std.LawfulEqOrd.eq_of_compare hb.2.2
  rw [List.map_map, Batch.slots, hset]
  rfl

end Accumulator

end CodeAudit
