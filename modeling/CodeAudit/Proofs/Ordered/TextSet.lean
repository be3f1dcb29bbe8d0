import CodeAudit.Ordered.TextSet
import CodeAudit.Proofs.Ordered.StableSort
import Mathlib.Data.List.Sort

namespace CodeAudit.TextSet

theorem contains_foldl_insert (l : List String) (ts : TextSet) (x : String) :
    (l.foldl (fun ts s => ts.insert s) ts).contains x = (l.contains x || ts.contains x) := by
  induction l generalizing ts with
  | nil => simp
  | cons s rest ih =>
    rw [List.foldl_cons, ih, contains_insert, List.contains_cons]
    cases rest.contains x <;> cases x == s <;> rfl

@[simp] theorem contains_ofList (l : List String) (x : String) :
    (ofList l).contains x = l.contains x := by
  rw [ofList, contains_foldl_insert]
  simp [empty, contains]

theorem eq_of_contains {a b : TextSet} (h : ∀ x, a.contains x = b.contains x) : a = b := by
  have hlists : a.toList = b.toList := by
    apply a.ascending.eq_of_mem_iff b.ascending
    intro x
    have hx := h x
    rwa [contains, contains, Bool.eq_iff_iff, List.contains_iff_mem, List.contains_iff_mem] at hx
  cases a
  cases b
  exact (mk.injEq ..).mpr hlists

theorem ofList_eq_of_mem_iff {l l' : List String} (h : ∀ x, x ∈ l ↔ x ∈ l') :
    ofList l = ofList l' := by
  apply eq_of_contains
  intro x
  rw [contains_ofList, contains_ofList, Bool.eq_iff_iff, List.contains_iff_mem,
    List.contains_iff_mem, h]

theorem nodup_toList (ts : TextSet) : ts.toList.Nodup := by
  refine ts.ascending.imp ?_
  rintro s _ hlt rfl
  exact String.lt_irrefl s hlt

open Ordered in
theorem flatMap_filter_eq {α : Type} {key : α → String} (ts : TextSet) {l : List α}
    (hl : Ascending (fun a b => compare (key a) (key b)) l)
    (hkeys : ∀ a ∈ l, ts.contains (key a) = true) :
    (ts.toList.flatMap fun t => l.filter fun a => key a == t) = l := by
  have : Std.TransCmp fun a b => compare (key a) (key b) := transCmp_on key compare
  have hparts : Ascending (fun a b => compare (key a) (key b))
      (ts.toList.flatMap fun t => l.filter fun a => key a == t) := by
    unfold Ascending
    rw [List.pairwise_flatMap]
    refine ⟨fun t _ => hl.filter _, ts.ascending.imp fun {s t} hst a ha b hb => ?_⟩
    have ha' := beq_iff_eq.mp (List.mem_filter.mp ha).2
    have hb' := beq_iff_eq.mp (List.mem_filter.mp hb).2
    have hlt : compare (key a) (key b) = .lt := by
      rw [ha', hb']
      exact compareOfLessAndEq_eq_lt.mpr hst
    simp [hlt]
  -- Both lists ascend, so it is enough that they hold the same under each text.
  apply eq_of_level_eq _ hparts hl
  intro x
  have hlevel (l : List α) : level (fun a b => compare (key a) (key b)) x l =
      l.filter fun a => key a == key x := by
    apply List.filter_congr
    intro a _
    rw [Bool.eq_iff_iff, beq_iff_eq, beq_iff_eq, Std.compare_eq_iff_eq, eq_comm]
  rw [hlevel, hlevel, filter_flatMap_of_blocks (q := fun t => t == key x) (by
    intro t _ a ha
    rw [beq_iff_eq.mp (List.mem_filter.mp ha).2]), List.filter_beq, ts.nodup_toList.count]
  split
  · simp
  · rename_i hmissing
    symm
    rw [List.replicate_zero, List.flatMap_nil, List.filter_eq_nil_iff]
    intro a ha hax
    have hkey := hkeys a ha
    rw [beq_iff_eq.mp hax, contains, List.contains_iff_mem] at hkey
    exact hmissing hkey

end CodeAudit.TextSet
