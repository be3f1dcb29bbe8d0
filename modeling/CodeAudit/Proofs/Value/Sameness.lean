import CodeAudit.Proofs.Value.Distinct

/-!
Equality of keys. Mappings are the same as keys when each entry of one has its like in the other
and they have equally many entries. For values without repeated keys that is an equivalence: where
every entry of one side has a partner and no two have the same one, no entry of the other side is
left over.
-/

namespace CodeAudit

/-! ### Numbers -/

theorem Number.Binary64.same_iff {x y : Number.Binary64} :
    x.same y = true ↔
      (x.isNaN = true ∧ y.isNaN = true) ∨ (x.isZero = true ∧ y.isZero = true) ∨ x = y := by
  simp [same, or_assoc]

theorem Number.Binary64.not_isNaN_of_isZero {x : Number.Binary64} (h : x.isZero = true) :
    x.isNaN = false := by
  have hbits : x.absBits = 0 := by simpa [isZero] using h
  unfold isNaN
  rw [hbits]
  decide

theorem Number.Binary64.same_trans {x y z : Number.Binary64} (hxy : x.same y = true)
    (hyz : y.same z = true) : x.same z = true := by
  have hzero : y.isZero = true → y.isNaN = true → False := by
    intro h hnan
    simp [not_isNaN_of_isZero h] at hnan
  rw [same_iff] at hxy hyz ⊢
  grind

namespace Numeral

theorem same_refl (n : Numeral) : n.same n = true := by
  cases n with
  | int i => simp [same]
  | float x => exact Number.Binary64.same_iff.mpr (.inr (.inr rfl))

theorem same_symm {m n : Numeral} (h : m.same n = true) : n.same m = true := by
  cases m <;> cases n <;> simp_all [same, Number.Binary64.same_iff]
  grind

theorem same_trans {l m n : Numeral} (hlm : l.same m = true) (hmn : m.same n = true) :
    l.same n = true := by
  cases l <;> cases m <;> cases n <;> simp_all [same]
  exact Number.Binary64.same_trans hlm hmn

end Numeral

namespace Value

theorem sameEntries_iff {as bs : List (Value × Value)} :
    sameEntries as bs = true ↔
      ∀ a ∈ as, ∃ b ∈ bs, same a.1 b.1 = true ∧ same a.2 b.2 = true := by
  induction as with
  | nil => simp [sameEntries]
  | cons a rest ih => simp [sameEntries, ih]

/-! ### Every value is the same as itself -/

mutual

theorem same_refl (v : Value) : same v v = true := by
  match v with
  | null => rfl
  | bool b => simp [same]
  | number n => exact n.same_refl
  | string s => simp [same]
  | list items => exact sameItems_refl items
  | mapping entries =>
    have hentries := sameEntries_of_subset entries (List.Subset.refl entries)
    simp [same, hentries]
  | tagged tag v => simp [same, same_refl v]

theorem sameItems_refl (items : List Value) : sameItems items items = true := by
  match items with
  | [] => rfl
  | v :: rest => simp [sameItems, same_refl v, sameItems_refl rest]

theorem sameEntries_of_subset (as : List (Value × Value)) {bs : List (Value × Value)}
    (h : as ⊆ bs) : sameEntries as bs = true := by
  match as with
  | [] => rfl
  | (k, v) :: rest =>
    have hfirst : (bs.any fun e => same k e.1 && same v e.2) = true := by
      apply List.any_eq_true.mpr
      exact ⟨(k, v), h List.mem_cons_self, by simp [same_refl k, same_refl v]⟩
    have hrest := sameEntries_of_subset rest fun e he => h (List.mem_cons_of_mem (k, v) he)
    simp [sameEntries, hfirst, hrest]

end

/-! ### Sameness carries over -/

mutual

theorem same_trans {a b c : Value} (hab : same a b = true) (hbc : same b c = true) :
    same a c = true := by
  match a, b, c with
  | null, null, null => rfl
  | bool _, bool _, bool _ => simp_all [same]
  | number _, number _, number _ => exact Numeral.same_trans hab hbc
  | string _, string _, string _ => simp_all [same]
  | list as, list bs, list cs =>
    simp only [same] at hab hbc ⊢
    exact sameItems_trans hab hbc
  | mapping as, mapping bs, mapping cs =>
    simp only [same, Bool.and_eq_true, beq_iff_eq] at hab hbc ⊢
    exact ⟨hab.1.trans hbc.1, sameEntries_trans hab.2 hbc.2⟩
  | tagged s a, tagged t b, tagged u c =>
    simp only [same, Bool.and_eq_true, beq_iff_eq] at hab hbc ⊢
    exact ⟨hab.1.trans hbc.1, same_trans hab.2 hbc.2⟩

theorem sameItems_trans {as bs cs : List Value} (hab : sameItems as bs = true)
    (hbc : sameItems bs cs = true) : sameItems as cs = true := by
  match as, bs, cs with
  | [], [], [] => rfl
  | a :: as, b :: bs, c :: cs =>
    simp only [sameItems, Bool.and_eq_true] at hab hbc ⊢
    exact ⟨same_trans hab.1 hbc.1, sameItems_trans hab.2 hbc.2⟩

theorem sameEntries_trans {as bs cs : List (Value × Value)} (hab : sameEntries as bs = true)
    (hbc : sameEntries bs cs = true) : sameEntries as cs = true := by
  match as with
  | [] => rfl
  | (k, v) :: rest =>
    rw [sameEntries_iff, List.forall_mem_cons] at hab
    obtain ⟨⟨b, hb, hk, hv⟩, hrest⟩ := hab
    obtain ⟨c, hc, hk', hv'⟩ := sameEntries_iff.mp hbc b hb
    have hfirst : (cs.any fun e => same k e.1 && same v e.2) = true := by
      apply List.any_eq_true.mpr
      exact ⟨c, hc, by simp [same_trans hk hk', same_trans hv hv']⟩
    simp [sameEntries, hfirst, sameEntries_trans (sameEntries_iff.mpr hrest) hbc]

end

/-! ### Sameness goes both ways -/

/-- When the elements of one list have partners in another that is not longer, and no two share a
partner, then the other list is used up. -/
theorem exists_partner {α β : Type} {R : α → β → Prop} {as : List α} {bs : List β}
    (hlength : bs.length ≤ as.length) (hpartner : ∀ a ∈ as, ∃ b ∈ bs, R a b)
    (hunshared : as.Pairwise fun a a' => ∀ b, R a b → ¬ R a' b) :
    ∀ b ∈ bs, ∃ a ∈ as, R a b := by
  induction as generalizing bs with
  | nil =>
    have hbs : bs = [] := List.eq_nil_of_length_eq_zero (by simpa using hlength)
    simp [hbs]
  | cons a as ih =>
    rw [List.forall_mem_cons] at hpartner
    rw [List.pairwise_cons] at hunshared
    obtain ⟨⟨b, hb, hab⟩, hpartner⟩ := hpartner
    obtain ⟨front, back, rfl⟩ := List.append_of_mem hb
    have hlength' : (front ++ back).length ≤ as.length := by
      simp only [List.length_append, List.length_cons] at hlength ⊢
      omega
    -- The others find their partners next to `b`.
    have hpartner' : ∀ a' ∈ as, ∃ b' ∈ front ++ back, R a' b' := by
      intro a' ha'
      obtain ⟨b', hb', hab'⟩ := hpartner a' ha'
      have hne : b' ≠ b := by
        rintro rfl
        exact hunshared.1 a' ha' b' hab hab'
      refine ⟨b', ?_, hab'⟩
      simpa [hne] using hb'
    intro b' hb'
    by_cases hne : b' = b
    · exact ⟨a, List.mem_cons_self, hne ▸ hab⟩
    · have hrest : b' ∈ front ++ back := by simpa [hne] using hb'
      obtain ⟨a', ha', hab'⟩ := ih hlength' hpartner' hunshared.2 b' hrest
      exact ⟨a', List.mem_cons_of_mem a ha', hab'⟩

mutual

theorem same_symm {a b : Value} (ha : a.wellKeyed = true) (h : same a b = true) :
    same b a = true := by
  match a, b with
  | null, null => rfl
  | bool _, bool _ => simp_all [same]
  | number _, number _ => exact Numeral.same_symm h
  | string _, string _ => simp_all [same]
  | list as, list bs =>
    simp only [same, wellKeyed] at h ha ⊢
    exact sameItems_symm ha h
  | mapping as, mapping bs =>
    simp only [same, wellKeyed, Bool.and_eq_true, beq_iff_eq] at h ha ⊢
    have hback := same_symm_entries ha
    -- Two entries that share a partner would have the same key.
    have hunshared : as.Pairwise fun a a' => ∀ b : Value × Value,
        same a.1 b.1 = true ∧ same a.2 b.2 = true →
          ¬ (same a'.1 b.1 = true ∧ same a'.2 b.2 = true) := by
      refine (wellKeyedEntries_iff.mp ha).1.imp_of_mem ?_
      intro a a' hmem _ hapart b hab hab'
      have hsame : same a'.1 a.1 = true := same_trans hab'.1 ((hback a hmem b.1).1 hab.1)
      simp [hapart] at hsame
    refine ⟨h.1.symm, sameEntries_iff.mpr fun b hb => ?_⟩
    obtain ⟨a, hmem, hk, hv⟩ :=
      exists_partner (Nat.le_of_eq h.1.symm) (sameEntries_iff.mp h.2) hunshared b hb
    exact ⟨a, hmem, (hback a hmem b.1).1 hk, (hback a hmem b.2).2 hv⟩
  | tagged s a, tagged t b =>
    simp only [same, wellKeyed, Bool.and_eq_true, beq_iff_eq] at h ha ⊢
    exact ⟨h.1.symm, same_symm ha h.2⟩

theorem sameItems_symm {as bs : List Value} (has : wellKeyedItems as = true)
    (h : sameItems as bs = true) : sameItems bs as = true := by
  match as, bs with
  | [], [] => rfl
  | a :: as, b :: bs =>
    simp only [sameItems, wellKeyedItems, Bool.and_eq_true] at h has ⊢
    exact ⟨same_symm has.1 h.1, sameItems_symm has.2 h.2⟩

/-- The keys and the values of well-keyed entries may be exchanged with what they are the same
as. -/
theorem same_symm_entries {as : List (Value × Value)} (has : wellKeyedEntries as = true) :
    ∀ a ∈ as, ∀ b : Value,
      (same a.1 b = true → same b a.1 = true) ∧ (same a.2 b = true → same b a.2 = true) := by
  match as with
  | [] => simp
  | (k, v) :: rest =>
    obtain ⟨-, hk, hv, hrest⟩ := wellKeyedEntries_cons.mp has
    rw [List.forall_mem_cons]
    exact ⟨fun b => ⟨same_symm hk, same_symm hv⟩, same_symm_entries hrest⟩

end

end Value

end CodeAudit
