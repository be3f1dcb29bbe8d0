import CodeAudit.Proofs.Profile.Totals

namespace CodeAudit

/-! ### Division by what is left of a number -/

section Narrowing

variable {t n m : Nat}

/-- What is left of a number that does not fit is less than half of it. -/
theorem two_mul_mod_lt (hm : 0 < m) (hn : m ≤ n) : n % m * 2 < n := by
  have hmod : n % m < m := Nat.mod_lt n hm
  have hquot : 1 ≤ n / m := (Nat.one_le_div_iff hm).mpr hn
  have hsplit : m * (n / m) + n % m = n := Nat.div_add_mod n m
  have hpart : m * 1 ≤ m * (n / m) := Nat.mul_le_mul_left m hquot
  omega

/-- The remainder of a number that does not fit gives the same quotient only where both are zero. -/
theorem div_mod_eq_div_iff (hm : 0 < m) (hn : m ≤ n) (hd : 0 < n % m) :
    t / (n % m) = t / n ↔ t < n % m := by
  have htwice := two_mul_mod_lt hm hn
  constructor
  · intro heq
    by_contra hle
    have hpos : 0 < t / (n % m) := Nat.div_pos (Nat.le_of_not_lt hle) hd
    -- `n` is more than twice its remainder, so its quotient is at most half of the remainder's
    have hless : t / n < t / (n % m) := calc
      t / n ≤ t / (n % m * 2) := Nat.div_le_div_left (Nat.le_of_lt htwice) (by omega)
      _ = t / (n % m) / 2 := (Nat.div_div_eq_div_mul _ _ _).symm
      _ < t / (n % m) := Nat.div_lt_self hpos (by decide)
    exact Nat.ne_of_lt hless heq.symm
  · intro hlt
    rw [Nat.div_eq_of_lt hlt, Nat.div_eq_of_lt (by omega)]

end Narrowing

/-! ### The average of a row -/

namespace RuleProfile

variable {row : RuleProfile}

theorem divisor_eq (row : RuleProfile) : row.divisor = row.files % 2 ^ 32 := rfl

theorem divisor_eq_files (hfit : row.files < 2 ^ 32) : row.divisor = row.files :=
  Nat.mod_eq_of_lt hfit

theorem average?_eq_none_iff (hran : 0 < row.files) :
    row.average? = none ↔ row.divisor = 0 := by
  have hne : row.files ≠ 0 := Nat.ne_of_gt hran
  simp [average?, hne]

theorem average?_eq_some_iff (hran : 0 < row.files) {average : Nat} :
    row.average? = some average ↔ 0 < row.divisor ∧ row.total / row.divisor = average := by
  have hne : row.files ≠ 0 := Nat.ne_of_gt hran
  simp [average?, hne, Nat.pos_iff_ne_zero]

/-- A divisor that holds all files gives the average; one that does not gives it only where both
quotients are zero. -/
theorem average?_eq_quotient_iff (hran : 0 < row.files) :
    row.average? = some (row.total / row.files) ↔
      row.files < 2 ^ 32 ∨ row.total < row.files % 2 ^ 32 := by
  rw [average?_eq_some_iff hran]
  rcases Nat.lt_or_ge row.files (2 ^ 32) with hfit | hover
  · rw [divisor_eq_files hfit]
    exact iff_of_true ⟨hran, rfl⟩ (.inl hfit)
  · rw [divisor_eq, or_iff_right (Nat.not_lt.mpr hover)]
    constructor
    · rintro ⟨hpos, heq⟩
      exact (div_mod_eq_div_iff (by decide) hover hpos).mp heq
    · intro hlt
      have hpos : 0 < row.files % 2 ^ 32 := Nat.zero_lt_of_lt hlt
      exact ⟨hpos, (div_mod_eq_div_iff (by decide) hover hpos).mpr hlt⟩

theorem quotient_le_average (hran : 0 < row.files) {average : Nat}
    (haverage : row.average? = some average) : row.total / row.files ≤ average := by
  obtain ⟨hpos, rfl⟩ := (average?_eq_some_iff hran).mp haverage
  exact Nat.div_le_div_left (Nat.mod_le _ _) hpos

end RuleProfile

/-! ### The averages of a profile -/

namespace Profile

variable {p : Profile} {row : RuleProfile}

theorem mem_aggregate_iff : row ∈ p.aggregate ↔ row.pair ∈ p.records.map (·.pair) ∧
    row = RuleProfile.ofRecords row.pair (p.recordsOf row.pair) := by
  rw [p.aggregate_perm.mem_iff, mem_rows_iff]

theorem files_eq (hrow : row ∈ p.aggregate) : row.files = (p.recordsOf row.pair).length :=
  congrArg RuleProfile.files (mem_aggregate_iff.mp hrow).2

theorem files_pos (hrow : row ∈ p.aggregate) : 0 < row.files := by
  rw [files_eq hrow]
  exact List.length_pos_iff.mpr (recordsOf_ne_nil_iff.mpr (mem_aggregate_iff.mp hrow).1)

theorem files_le_length (hrow : row ∈ p.aggregate) : row.files ≤ p.records.length := by
  rw [files_eq hrow]
  exact List.length_filter_le _ _

/-- A rule's average is its total over its files, rounded down, if and only if the files fit into the
divisor or the total is less than what the divisor keeps of them. There is no average at all where it
keeps nothing, and an average that is wrong is too long. With fewer than 2 ^ 32 executions all
averages are right. -/
theorem average_right_iff_files_fit (hrow : row ∈ p.aggregate) :
    0 < row.files ∧
    (row.average? = some (row.total / row.files) ↔
      row.files < 2 ^ 32 ∨ row.total < row.files % 2 ^ 32) ∧
    (row.average? = none ↔ 2 ^ 32 ∣ row.files) ∧
    (∀ average, row.average? = some average → row.total / row.files ≤ average) ∧
    (p.records.length < 2 ^ 32 → row.average? = some (row.total / row.files)) := by
  have hran := files_pos hrow
  refine ⟨hran, RuleProfile.average?_eq_quotient_iff hran, ?_, fun average haverage => ?_,
    fun hfew => ?_⟩
  · rw [RuleProfile.average?_eq_none_iff hran, RuleProfile.divisor_eq, Nat.dvd_iff_mod_eq_zero]
  · exact RuleProfile.quotient_le_average hran haverage
  · have hfit : row.files < 2 ^ 32 := Nat.lt_of_le_of_lt (files_le_length hrow) hfew
    exact (RuleProfile.average?_eq_quotient_iff hran).mpr (.inl hfit)

/-! ### A counter that has gone round -/

/-- The sums of every rule fit where they are kept: a duration has 64 bits for its seconds, and each
count has 64 bits. -/
def SumsFit (p : Profile) : Prop :=
  ∀ row ∈ p.aggregate,
    row.total < 2 ^ 64 * 10 ^ 9 ∧ row.files < 2 ^ 64 ∧ row.findings < 2 ^ 64

def repeated (r : ExecutionRecord) (n : Nat) : Profile := ⟨List.replicate n r⟩

theorem recordsOf_repeated (r : ExecutionRecord) (n : Nat) :
    (repeated r n).recordsOf r.pair = List.replicate n r := by
  rw [recordsOf, repeated, List.filter_replicate_of_pos (by simp)]

theorem mem_aggregate_repeated_iff {r : ExecutionRecord} {n : Nat} (hn : 0 < n) :
    row ∈ (repeated r n).aggregate ↔
      row = ⟨r.ruleSet, r.rule, n * r.duration, n, n * r.findings⟩ := by
  have hrow : RuleProfile.ofRecords r.pair ((repeated r n).recordsOf r.pair) =
      ⟨r.ruleSet, r.rule, n * r.duration, n, n * r.findings⟩ := by
    rw [recordsOf_repeated]
    simp [RuleProfile.ofRecords, ExecutionRecord.pair]
  have hpairs : ∀ pair, pair ∈ (repeated r n).records.map (·.pair) ↔ pair = r.pair := by
    intro pair
    simp [repeated, List.mem_replicate, Nat.ne_of_gt hn]
  rw [mem_aggregate_iff, hpairs, ← hrow]
  constructor
  · rintro ⟨hpair, heq⟩
    rwa [hpair] at heq
  · rintro rfl
    exact ⟨rfl, rfl⟩

def quickVisit : ExecutionRecord where
  ruleSet := "style"
  rule := "Magic"
  file := ⟨"a.kt"⟩
  duration := 1000
  findings := 0

/-- As many files as the divisor has values leave nothing to divide by; the sums are far from their
bounds, and the average would be a microsecond. -/
theorem no_average_of_full_divisor :
    (repeated quickVisit (2 ^ 32)).SumsFit ∧
      ∃ row ∈ (repeated quickVisit (2 ^ 32)).aggregate,
        row.files = 2 ^ 32 ∧ row.total / row.files = 1000 ∧ row.average? = none := by
  have hmem {row : RuleProfile} : row ∈ (repeated quickVisit (2 ^ 32)).aggregate ↔
      row = ⟨"style", "Magic", 2 ^ 32 * 1000, 2 ^ 32, 2 ^ 32 * 0⟩ :=
    mem_aggregate_repeated_iff (by decide)
  refine ⟨fun row hrow => ?_, _, hmem.mpr rfl, rfl, by decide, ?_⟩
  · rw [hmem.mp hrow]
    decide
  · exact (average_right_iff_files_fit (hmem.mpr rfl)).2.2.1.mpr (Nat.dvd_refl _)

end Profile

end CodeAudit
