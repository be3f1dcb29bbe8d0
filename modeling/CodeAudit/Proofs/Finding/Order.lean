import CodeAudit.Finding.Basic
import CodeAudit.Proofs.Ordered.StableSort

namespace CodeAudit

open Ordered

instance : Std.TransCmp Component.order :=
  transCmp_then (transCmp_on Component.rank compare) (transCmp_on Component.label compare)

instance : Std.LawfulEqCmp Component.order where
  eq_of_compare {a b} h := by
    obtain ⟨hrank, hlabel⟩ := Ordering.then_eq_eq.mp h
    rw [Std.compare_eq_iff_eq] at hrank hlabel
    cases a <;> cases b <;> simp_all [Component.rank, Component.label]

instance : Std.TransCmp Path.order :=
  transCmp_on Path.components (List.compareLex Component.order)

theorem Path.order_eq_iff {a b : Path} : a.order b = .eq ↔ a.components = b.components := by
  rw [Path.order, Std.LawfulEqCmp.compare_eq_iff_eq]

namespace Finding

instance : Std.TransCmp Finding.order :=
  transCmp_then (transCmp_on (fun f : Finding => f.location.path) Path.order) <|
  transCmp_then (transCmp_on (fun f : Finding => f.location.line) compare) <|
  transCmp_then (transCmp_on (fun f : Finding => f.location.column) compare) <|
  transCmp_then (transCmp_on (fun f : Finding => f.ruleId) compare) <|
  transCmp_then (transCmp_on (fun f : Finding => f.message) compare) <|
  transCmp_on (fun f : Finding => f.entity.signature) compare

theorem sort_perm (fs : List Finding) : (sort fs).Perm fs := sortBy_perm order fs

theorem ascending_sort (fs : List Finding) : Ascending order (sort fs) := ascending_sortBy order fs

end Finding

end CodeAudit
