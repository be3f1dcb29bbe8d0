import CodeAudit.Proofs.Finding.Order
import CodeAudit.Proofs.Ordered.Table
import CodeAudit.Report.Text
import Mathlib.Data.List.Induction

namespace CodeAudit

open Ordered

namespace TextReport

/-- The list is cut into the findings of each file. A group goes by the path of its first finding,
and no two groups go by one path. -/
structure Grouped (fs : List Finding) (groups : List (Path × List Finding)) : Prop where
  flatMap_eq : groups.flatMap (·.2) = fs
  header : ∀ g ∈ groups, g.2.head?.map (·.location.path) = some g.1
  same : ∀ g ∈ groups, ∀ f ∈ g.2, f.location.path.same g.1
  distinct : groups.Pairwise fun a b => ¬ a.1.same b.1

theorem same_iff {a b : Path} : a.same b ↔ a.order b = .eq := by
  rw [Path.order_eq_iff, Path.same, beq_iff_eq]

theorem byFile_snoc (fs : List Finding) (f : Finding) :
    byFile (fs ++ [f]) =
      Table.update Path.order f.location.path (fun old => old.getD [] ++ [f]) (byFile fs) := by
  rw [byFile, List.foldl_append]
  rfl

theorem strict_byFile (fs : List Finding) : Table.Strict Path.order (byFile fs) :=
  Table.strict_foldl_update (fun f : Finding => f.location.path) _ fs .nil

theorem Grouped.newFile {fs : List Finding} {groups : List (Path × List Finding)}
    (h : Grouped fs groups) {f : Finding}
    (hnew : ∀ g ∈ groups, f.location.path.order g.1 = .gt) :
    Grouped (fs ++ [f]) (groups ++ [(f.location.path, [f])]) where
  flatMap_eq := by rw [List.flatMap_append, h.flatMap_eq]; rfl
  header := by
    intro g hg
    rcases List.mem_append.mp hg with hg | hg
    · exact h.header g hg
    · obtain rfl := List.mem_singleton.mp hg
      rfl
  same := by
    intro g hg f' hf'
    rcases List.mem_append.mp hg with hg | hg
    · exact h.same g hg f' hf'
    · obtain rfl := List.mem_singleton.mp hg
      obtain rfl := List.mem_singleton.mp hf'
      simp [Path.same]
  distinct := by
    refine List.pairwise_append.mpr ⟨h.distinct, List.pairwise_singleton _ _, ?_⟩
    intro g hg g' hg' hsame
    obtain rfl := List.mem_singleton.mp hg'
    -- The group before would stand level with the new path, which is greater.
    have heq := Std.OrientedCmp.eq_symm (same_iff.mp hsame)
    exact absurd (heq.symm.trans (hnew g hg)) (by decide)

theorem Grouped.sameFile {fs : List Finding} {front : List (Path × List Finding)} {p : Path}
    {own : List Finding} (h : Grouped fs (front ++ [(p, own)])) {f : Finding}
    (hsame : f.location.path.same p) : Grouped (fs ++ [f]) (front ++ [(p, own ++ [f])]) where
  flatMap_eq := by
    rw [← h.flatMap_eq]
    simp
  header := by
    intro g hg
    rcases List.mem_append.mp hg with hg | hg
    · exact h.header g (List.mem_append_left _ hg)
    · obtain rfl := List.mem_singleton.mp hg
      have hhead := h.header (p, own) (by simp)
      cases own with
      | nil => cases hhead
      | cons f' own => exact hhead
  same := by
    intro g hg f' hf'
    rcases List.mem_append.mp hg with hg | hg
    · exact h.same g (List.mem_append_left _ hg) f' hf'
    · obtain rfl := List.mem_singleton.mp hg
      rcases List.mem_append.mp hf' with hf' | hf'
      · exact h.same (p, own) (by simp) f' hf'
      · obtain rfl := List.mem_singleton.mp hf'
        exact hsame
  distinct := by
    have hkeys := h.distinct
    rw [List.pairwise_append] at hkeys ⊢
    exact ⟨hkeys.1, List.pairwise_singleton _ _, fun g hg g' hg' =>
      List.mem_singleton.mp hg' ▸ hkeys.2.2 g hg (p, own) List.mem_cons_self⟩

theorem grouped_byFile {fs : List Finding} (h : Ascending Finding.order fs) :
    Grouped fs (byFile fs) := by
  induction fs using List.reverseRecOn with
  | nil => exact ⟨rfl, by simp [byFile], by simp [byFile], .nil⟩
  | append_singleton fs f ih =>
    have hbefore := (List.pairwise_append.mp h).2.2
    have ih := ih (List.pairwise_append.mp h).1
    have hstrict := strict_byFile fs
    rw [byFile_snoc]
    rcases (byFile fs).eq_nil_or_concat with hgroups | ⟨front, ⟨p, own⟩, hgroups⟩
    · rw [hgroups] at ih ⊢
      exact ih.newFile (by simp)
    · rw [List.concat_eq_append] at hgroups
      rw [hgroups] at ih hstrict ⊢
      -- The last path is that of a finding of the list, so it is not behind the new one.
      have hle : (p.order f.location.path).isLE := by
        have hhead := ih.header (p, own) (by simp)
        obtain ⟨f', hf', rfl⟩ := Option.map_eq_some_iff.mp hhead
        have hmem : f' ∈ fs := by
          rw [← ih.flatMap_eq]
          exact List.mem_flatMap.mpr ⟨_, by simp, List.mem_of_head? hf'⟩
        exact Ordering.isLE_left_of_isLE_then (hbefore f' hmem f (by simp))
      have hfront (g) (hg : g ∈ front) : f.location.path.order g.1 = .gt := by
        have hlt := (List.pairwise_append.mp hstrict).2.2 g hg (p, own) (by simp)
        exact Std.OrientedCmp.gt_of_lt (Std.TransCmp.lt_of_lt_of_isLE hlt hle)
      rw [Table.update_append _ hfront]
      cases horder : f.location.path.order p with
      | lt =>
        rw [Std.OrientedCmp.gt_of_lt horder] at hle
        cases hle
      | eq =>
        rw [Table.update, horder]
        exact ih.sameFile (same_iff.mpr horder)
      | gt =>
        rw [Table.update_cons_of_gt _ _ _ horder, Table.update_nil]
        have hall (g) (hg : g ∈ front ++ [(p, own)]) : f.location.path.order g.1 = .gt := by
          rcases List.mem_append.mp hg with hg | hg
          · exact hfront g hg
          · exact List.mem_singleton.mp hg ▸ horder
        simpa using ih.newFile hall

end TextReport

end CodeAudit
