import CodeAudit.Profile.Basic
import CodeAudit.Proofs.Ordered.StableSort
import CodeAudit.Proofs.Ordered.Table
import Mathlib.Algebra.Ring.Nat
import Mathlib.Data.List.Induction

namespace CodeAudit

open Ordered

/-- The rule set and the rule of an execution. -/
def ExecutionRecord.pair (r : ExecutionRecord) : String × String := (r.ruleSet, r.rule)

namespace RuleProfile

def pair (p : RuleProfile) : String × String := (p.ruleSet, p.rule)

def ofRecords (pair : String × String) (records : List ExecutionRecord) : RuleProfile where
  ruleSet := pair.1
  rule := pair.2
  total := (records.map (·.duration)).sum
  files := records.length
  findings := (records.map (·.findings)).sum

theorem ofRecords_of_perm (pair : String × String) {rs rs' : List ExecutionRecord}
    (h : rs.Perm rs') : ofRecords pair rs = ofRecords pair rs' := by
  unfold ofRecords
  rw [(h.map (·.duration)).sum_nat, h.length_eq, (h.map (·.findings)).sum_nat]

theorem ofRecords_snoc (pair : String × String) (rs : List ExecutionRecord) (r : ExecutionRecord) :
    ofRecords pair (rs ++ [r]) = (ofRecords pair rs).add r := by
  simp [ofRecords, add]

end RuleProfile

namespace Profile

instance : Std.TransCmp ruleOrder :=
  transCmp_then (transCmp_on Prod.fst compare) (transCmp_on Prod.snd compare)

instance : Std.LawfulEqCmp ruleOrder where
  compare_self := Std.ReflCmp.compare_self
  eq_of_compare := by
    rintro ⟨a, b⟩ ⟨a', b'⟩ h
    obtain ⟨ha, hb⟩ := Ordering.then_eq_eq.mp h
    exact Prod.ext (Std.LawfulEqCmp.eq_of_compare ha) (Std.LawfulEqCmp.eq_of_compare hb)

def recordsOf (p : Profile) (pair : String × String) : List ExecutionRecord :=
  p.records.filter fun r => r.pair == pair

theorem recordsOf_eq (p : Profile) (pair : String × String) :
    p.recordsOf pair = p.records.filter fun r => ruleOrder pair r.pair == .eq := by
  refine List.filter_congr fun r _ => ?_
  rw [Bool.eq_iff_iff, beq_iff_eq, beq_iff_eq, Std.LawfulEqCmp.compare_eq_iff_eq, eq_comm]

theorem recordsOf_ne_nil_iff {p : Profile} {pair : String × String} :
    p.recordsOf pair ≠ [] ↔ pair ∈ p.records.map (·.pair) := by
  rw [recordsOf, ne_eq, List.filter_eq_nil_iff, List.mem_map]
  simp

/-! ### The table of sums -/

theorem strict_byRule (p : Profile) : Table.Strict ruleOrder p.byRule :=
  Table.strict_foldl_update ExecutionRecord.pair _ _ .nil

theorem foldl_add_eq {pair : String × String} {rs : List ExecutionRecord}
    (h : ∀ r ∈ rs, r.pair = pair) :
    rs.foldl
        (fun old r => some ((old.getD { ruleSet := r.ruleSet, rule := r.rule }).add r)) none =
      if rs.isEmpty then none else some (RuleProfile.ofRecords pair rs) := by
  induction rs using List.reverseRecOn with
  | nil => rfl
  | append_singleton rs r ih =>
    have hpair : r.pair = pair := h r (by simp)
    have hne : (rs ++ [r]).isEmpty = false := by simp
    rw [List.foldl_append, ih fun r' hr' => h r' (by simp [hr']), List.foldl_cons, List.foldl_nil,
      RuleProfile.ofRecords_snoc, hne]
    cases rs with
    | nil => rw [← hpair]; rfl
    | cons => rfl

theorem get?_byRule (p : Profile) (pair : String × String) :
    Table.get? ruleOrder pair p.byRule =
      if (p.recordsOf pair).isEmpty then none
      else some (RuleProfile.ofRecords pair (p.recordsOf pair)) := by
  have hpair : ∀ r ∈ p.recordsOf pair, r.pair = pair := fun r hr =>
    beq_iff_eq.mp (List.mem_filter.mp hr).2
  rw [← foldl_add_eq hpair, recordsOf_eq]
  exact Table.get?_foldl_update ExecutionRecord.pair _ p.records pair .nil

theorem mem_byRule_iff {p : Profile} {pair : String × String} {row : RuleProfile} :
    (pair, row) ∈ p.byRule ↔
      p.recordsOf pair ≠ [] ∧ row = RuleProfile.ofRecords pair (p.recordsOf pair) := by
  rw [Table.mem_iff_get? p.strict_byRule, get?_byRule]
  simp only [List.isEmpty_iff]
  split
  next h => simp [h]
  next h => simp [h, eq_comm]

theorem byRule_of_perm {p q : Profile} (h : q.records.Perm p.records) : q.byRule = p.byRule := by
  refine q.strict_byRule.ext p.strict_byRule fun pair => ?_
  have hof : (q.recordsOf pair).Perm (p.recordsOf pair) := h.filter _
  rw [get?_byRule, get?_byRule, RuleProfile.ofRecords_of_perm pair hof, hof.isEmpty_eq]

end Profile

/-! ### The rows in their order -/

/-- Longer totals first, equal ones by rule set and rule. -/
def RuleProfile.order (a b : RuleProfile) : Ordering :=
  (compare b.total a.total).then (Profile.ruleOrder a.pair b.pair)

namespace Profile

instance : Std.TransCmp fun a b : RuleProfile => compare b.total a.total where
  eq_swap := Std.OrientedCmp.eq_swap
  isLE_trans hab hbc := Std.TransCmp.isLE_trans hbc hab

instance : Std.TransCmp RuleProfile.order :=
  transCmp_then inferInstance (transCmp_on RuleProfile.pair ruleOrder)

def rows (p : Profile) : List RuleProfile := p.byRule.map (·.2)

theorem mem_rows_iff {p : Profile} {row : RuleProfile} :
    row ∈ p.rows ↔ row.pair ∈ p.records.map (·.pair) ∧
      row = RuleProfile.ofRecords row.pair (p.recordsOf row.pair) := by
  rw [← recordsOf_ne_nil_iff, ← mem_byRule_iff, rows, List.mem_map]
  constructor
  · rintro ⟨⟨pair, row⟩, hrow, rfl⟩
    have hpair : row.pair = pair := by rw [(mem_byRule_iff.mp hrow).2]; rfl
    rwa [hpair]
  · intro hrow
    exact ⟨_, hrow, rfl⟩

theorem pairwise_rows (p : Profile) :
    p.rows.Pairwise fun a b => ruleOrder a.pair b.pair = .lt := by
  rw [rows, List.pairwise_map]
  refine p.strict_byRule.imp_of_mem fun {a b} ha hb hlt => ?_
  rw [(mem_byRule_iff.mp ha).2, (mem_byRule_iff.mp hb).2]
  exact hlt

theorem aggregate_eq_sortBy (p : Profile) : p.aggregate = sortBy RuleProfile.order p.rows := by
  have htotals : (fun a b : RuleProfile => decide (b.total ≤ a.total)) =
      fun a b => (compare b.total a.total).isLE := by
    funext a b
    rw [Bool.eq_iff_iff, decide_eq_true_eq, Nat.isLE_compare]
  have hrows : Ascending (fun a b : RuleProfile => ruleOrder a.pair b.pair) p.rows :=
    p.pairwise_rows.imp fun hlt => by simp [hlt]
  have : Std.TransCmp fun a b : RuleProfile => ruleOrder a.pair b.pair :=
    transCmp_on RuleProfile.pair ruleOrder
  rw [aggregate, htotals]
  exact sortBy_eq_sortBy_then (fun a b => compare b.total a.total) _ hrows

theorem aggregate_perm (p : Profile) : p.aggregate.Perm p.rows := by
  rw [aggregate_eq_sortBy]
  exact sortBy_perm _ _

theorem pairwise_aggregate (p : Profile) :
    p.aggregate.Pairwise fun a b => RuleProfile.order a b = .lt := by
  have hne : p.aggregate.Pairwise fun a b => RuleProfile.order a b ≠ .eq := by
    refine (p.aggregate_perm.pairwise_iff fun hab heq => hab (Std.OrientedCmp.eq_symm heq)).mpr ?_
    refine p.pairwise_rows.imp fun {a b} hlt heq => ?_
    rw [(Ordering.then_eq_eq.mp heq).2] at hlt
    cases hlt
  have hascending : Ascending RuleProfile.order p.aggregate := by
    rw [aggregate_eq_sortBy]
    exact ascending_sortBy _ _
  refine hascending.imp₂ (fun {a b} hle hne => ?_) hne
  cases horder : RuleProfile.order a b <;> simp_all

theorem order_eq_lt_iff {a b : RuleProfile} : RuleProfile.order a b = .lt ↔
    b.total < a.total ∨ b.total = a.total ∧ ruleOrder a.pair b.pair = .lt := by
  rw [RuleProfile.order, Ordering.then_eq_lt, Nat.compare_eq_lt, Nat.compare_eq_eq]

theorem total_le_of_not_mem_top {p : Profile} {n : Nat} {row listed : RuleProfile}
    (hrow : row ∈ p.aggregate) (hleft : row ∉ p.top n) (hlisted : listed ∈ p.top n) :
    row.total ≤ listed.total := by
  have hsplit : p.top n ++ p.aggregate.drop n = p.aggregate := List.take_append_drop n _
  have hpairwise := p.pairwise_aggregate
  rw [← hsplit] at hrow hpairwise
  have hdropped : row ∈ p.aggregate.drop n := (List.mem_append.mp hrow).resolve_left hleft
  have horder := (List.pairwise_append.mp hpairwise).2.2 listed hlisted row hdropped
  rcases order_eq_lt_iff.mp horder with hlt | ⟨heq, -⟩
  · exact Nat.le_of_lt hlt
  · exact Nat.le_of_eq heq

/-- A profile comes to one row for each rule that ran, with the sums over the rule's executions, the
longest totals first and equal ones by rule set and rule. The order of the executions makes no
difference, and no rule that is cut off took longer than one that is listed. -/
theorem aggregate_sums_each_rule (p : Profile) :
    ((p.aggregate.map (·.pair)).Nodup ∧
      ∀ pair, pair ∈ p.aggregate.map (·.pair) ↔ pair ∈ p.records.map (·.pair)) ∧
    (∀ row ∈ p.aggregate,
      row.total = ((p.recordsOf row.pair).map (·.duration)).sum ∧
      row.files = (p.recordsOf row.pair).length ∧
      row.findings = ((p.recordsOf row.pair).map (·.findings)).sum) ∧
    (p.aggregate.Pairwise fun a b =>
      b.total < a.total ∨ b.total = a.total ∧ ruleOrder a.pair b.pair = .lt) ∧
    (∀ q : Profile, q.records.Perm p.records → q.aggregate = p.aggregate) ∧
    ∀ n, p.top n <+: p.aggregate ∧ (p.top n).length = min n p.aggregate.length ∧
      ∀ row ∈ p.aggregate, row ∉ p.top n → ∀ listed ∈ p.top n, row.total ≤ listed.total := by
  refine ⟨⟨?_, fun pair => ?_⟩, fun row hrow => ?_, ?_, fun q hq => ?_, fun n => ⟨?_, ?_, ?_⟩⟩
  · rw [(p.aggregate_perm.map _).nodup_iff, List.Nodup, List.pairwise_map]
    -- Rows ascend strictly by rule, so no two are of one rule.
    refine p.pairwise_rows.imp fun {a b} hlt heq => ?_
    have hself : ruleOrder b.pair b.pair = .eq := Std.ReflCmp.compare_self
    rw [heq, hself] at hlt
    cases hlt
  · rw [(p.aggregate_perm.map _).mem_iff, List.mem_map]
    constructor
    · rintro ⟨row, hrow, rfl⟩
      exact (mem_rows_iff.mp hrow).1
    · intro hpair
      exact ⟨.ofRecords pair (p.recordsOf pair), mem_rows_iff.mpr ⟨hpair, rfl⟩, rfl⟩
  · have hsums := (mem_rows_iff.mp (p.aggregate_perm.mem_iff.mp hrow)).2
    exact ⟨congrArg RuleProfile.total hsums, congrArg RuleProfile.files hsums,
      congrArg RuleProfile.findings hsums⟩
  · exact p.pairwise_aggregate.imp order_eq_lt_iff.mp
  · rw [aggregate, aggregate, byRule_of_perm hq]
  · exact List.take_prefix n _
  · exact List.length_take
  · exact fun row hrow hleft listed hlisted => total_le_of_not_mem_top hrow hleft hlisted

/-- Three executions of two rules that come to the same total. -/
def evenProfile : Profile where
  records := [
    { ruleSet := "style", rule := "Magic", file := ⟨"b.kt"⟩, duration := 3, findings := 2 },
    { ruleSet := "style", rule := "Long", file := ⟨"a.kt"⟩, duration := 1, findings := 0 },
    { ruleSet := "style", rule := "Long", file := ⟨"b.kt"⟩, duration := 2, findings := 1 }]

theorem aggregate_sums_each_rule_even :
    (evenProfile.aggregate.map fun row => (row.pair, row.total, row.files, row.findings)) =
        [(("style", "Long"), 3, 2, 1), (("style", "Magic"), 3, 1, 2)] ∧
      (⟨evenProfile.records.reverse⟩ : Profile).aggregate = evenProfile.aggregate := by
  obtain ⟨-, -, -, horder, -⟩ := aggregate_sums_each_rule evenProfile
  refine ⟨?_, horder _ (List.reverse_perm _)⟩
  have hrows : evenProfile.byRule.map (·.2) =
      [⟨"style", "Long", 3, 2, 1⟩, ⟨"style", "Magic", 3, 1, 2⟩] := by decide
  rw [aggregate, hrows, List.mergeSort_of_pairwise (by decide)]
  rfl

end Profile

end CodeAudit
