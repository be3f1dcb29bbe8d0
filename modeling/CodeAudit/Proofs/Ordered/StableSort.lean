namespace CodeAudit.Ordered

variable {α : Type}

/-- The list in ascending order; elements that compare equal keep their order. -/
def sortBy (order : α → α → Ordering) (l : List α) : List α :=
  l.mergeSort fun a b => (order a b).isLE

def Ascending (order : α → α → Ordering) (l : List α) : Prop :=
  l.Pairwise fun a b => (order a b).isLE

/-- The elements that are equal to `x` in the order. -/
def level (order : α → α → Ordering) (x : α) (l : List α) : List α :=
  l.filter fun y => order x y == .eq

variable (order : α → α → Ordering)

theorem sortBy_perm (l : List α) : (sortBy order l).Perm l := List.mergeSort_perm l _

theorem sortBy_of_ascending {l : List α} (h : Ascending order l) : sortBy order l = l :=
  List.mergeSort_of_pairwise h

@[simp] theorem level_nil (x : α) : level order x [] = [] := rfl

theorem level_filter (p : α → Bool) (x : α) (l : List α) :
    level order x (l.filter p) = (level order x l).filter p := by
  unfold level
  rw [List.filter_filter, List.filter_filter]
  simp only [Bool.and_comm]

theorem level_cons_of_eq {x a : α} (h : order x a = .eq) (l : List α) :
    level order x (a :: l) = a :: level order x l :=
  List.filter_cons_of_pos (by simp [h])

theorem level_cons_of_ne {x a : α} (h : order x a ≠ .eq) (l : List α) :
    level order x (a :: l) = level order x l :=
  List.filter_cons_of_neg (by simp [h])

theorem level_append (x : α) (l₁ l₂ : List α) :
    level order x (l₁ ++ l₂) = level order x l₁ ++ level order x l₂ := List.filter_append ..

theorem mem_level {x y : α} {l : List α} : y ∈ level order x l ↔ y ∈ l ∧ order x y = .eq := by
  simp [level]

theorem filter_flatMap_of_blocks {β : Type} {p : β → Bool} {q : α → Bool} {g : α → List β}
    {l : List α} (h : ∀ a ∈ l, ∀ b ∈ g a, p b = q a) :
    (l.flatMap g).filter p = (l.filter q).flatMap g := by
  induction l with
  | nil => rfl
  | cons a l ih =>
    have hrest := ih fun a' ha' => h a' (by simp [ha'])
    rw [List.flatMap_cons, List.filter_append, hrest]
    by_cases ha : q a = true
    · have hall : (g a).filter p = g a :=
        List.filter_eq_self.mpr fun b hb => (h a (by simp) b hb).trans ha
      rw [hall, List.filter_cons_of_pos ha, List.flatMap_cons]
    · have hnone : (g a).filter p = [] :=
        List.filter_eq_nil_iff.mpr fun b hb => by rwa [h a (by simp) b hb]
      rw [hnone, List.filter_cons_of_neg ha, List.nil_append]

/-- Leaving out all but at most one element, the order of the list makes no difference. -/
theorem filter_eq_of_perm {p : α → Bool} {l₁ l₂ : List α} (h : l₁.Perm l₂)
    (hone : l₁.Pairwise fun a b => ¬(p a = true ∧ p b = true)) : l₁.filter p = l₂.filter p := by
  have hperm : (l₁.filter p).Perm (l₂.filter p) := h.filter p
  match hl : l₁.filter p with
  | [] =>
    rw [hl] at hperm
    exact hperm.nil_eq
  | [a] =>
    rw [hl] at hperm
    exact (List.perm_singleton.mp hperm.symm).symm
  | a :: b :: rest =>
    have hpass : ∀ c ∈ a :: b :: rest, p c = true := fun c hc => (List.mem_filter.mp (hl ▸ hc)).2
    have hlevel : (l₁.filter p).Pairwise fun a b => ¬(p a = true ∧ p b = true) := hone.filter _
    rw [hl] at hlevel
    have hab := (List.pairwise_cons.mp hlevel).1 b (by simp)
    exact absurd ⟨hpass a (by simp), hpass b (by simp)⟩ hab

theorem transCmp_then {c₁ c₂ : α → α → Ordering} (h₁ : Std.TransCmp c₁) (h₂ : Std.TransCmp c₂) :
    Std.TransCmp fun a b => (c₁ a b).then (c₂ a b) :=
  inferInstanceAs (Std.TransCmp (compareLex c₁ c₂))

theorem transCmp_on {β : Type} (f : α → β) (c : β → β → Ordering) [h : Std.TransCmp c] :
    Std.TransCmp fun a b => c (f a) (f b) where
  eq_swap := h.eq_swap
  isLE_trans := h.isLE_trans

variable [Std.TransCmp order]

theorem isLE_total (a b : α) : ((order a b).isLE || (order b a).isLE) = true := by
  have hswap : order b a = (order a b).swap := Std.OrientedCmp.eq_swap
  rw [hswap]
  cases order a b <;> rfl

theorem ascending_sortBy (l : List α) : Ascending order (sortBy order l) :=
  List.pairwise_mergeSort (fun _ _ _ => Std.TransCmp.isLE_trans) (isLE_total order) l

theorem level_sortBy (x : α) (l : List α) : level order x (sortBy order l) = level order x l := by
  have hasc : (level order x l).Pairwise fun a b => (order a b).isLE := by
    apply List.Pairwise.imp_of_mem (p := List.pairwise_of_forall fun _ _ => trivial)
    intro a b ha hb _
    rw [← Std.TransCmp.congr_left ((mem_level order).mp ha).2, ((mem_level order).mp hb).2]
    rfl
  have hsub : (level order x l).Sublist (sortBy order l) :=
    List.sublist_mergeSort (fun _ _ _ => Std.TransCmp.isLE_trans) (isLE_total order) hasc
      List.filter_sublist
  have hlevel : (level order x l).Sublist (level order x (sortBy order l)) := by
    simpa [level, List.filter_filter] using hsub.filter fun y => order x y == .eq
  exact (hlevel.eq_of_length ((sortBy_perm order l).filter _).length_eq.symm).symm

/-- The first element of an ascending list is at most any element of the list. -/
theorem isLE_head {a b : α} {l : List α} (h : Ascending order (a :: l)) (hb : b ∈ a :: l) :
    (order a b).isLE := by
  rcases List.mem_cons.mp hb with rfl | hb
  · exact Ordering.isLE_of_eq_eq Std.ReflCmp.compare_self
  · exact (List.pairwise_cons.mp h).1 b hb

theorem eq_of_level_eq {l₁ l₂ : List α} (h₁ : Ascending order l₁) (h₂ : Ascending order l₂)
    (h : ∀ x, level order x l₁ = level order x l₂) : l₁ = l₂ := by
  have mem_self (x : α) (l : List α) : x ∈ level order x (x :: l) := by
    simp [mem_level, Std.ReflCmp.compare_self]
  induction l₁ generalizing l₂ with
  | nil =>
    cases l₂ with
    | nil => rfl
    | cons b t => simpa [← h b] using mem_self b t
  | cons a s ih =>
    cases l₂ with
    | nil => simpa [h a] using mem_self a s
    | cons b t =>
      -- Each head occurs in the other list, so each is at most the other.
      have hab : (order a b).isLE := isLE_head order h₁ (List.mem_filter.mp (h b ▸ mem_self b t)).1
      have hba : (order b a).isLE := isLE_head order h₂ (List.mem_filter.mp (h a ▸ mem_self a s)).1
      have hswap : order b a = (order a b).swap := Std.OrientedCmp.eq_swap
      have heq : order a b = .eq := Ordering.eq_eq_of_isLE_of_isLE_swap hab (hswap ▸ hba)
      have hhead := h a
      rw [level_cons_of_eq order Std.ReflCmp.compare_self, level_cons_of_eq order heq] at hhead
      obtain ⟨rfl, -⟩ := List.cons.inj hhead
      congr 1
      apply ih (List.pairwise_cons.mp h₁).2 (List.pairwise_cons.mp h₂).2
      intro x
      have hx := h x
      by_cases hxa : order x a = .eq
      · rw [level_cons_of_eq order hxa, level_cons_of_eq order hxa] at hx
        exact List.tail_eq_of_cons_eq hx
      · rwa [level_cons_of_ne order hxa, level_cons_of_ne order hxa] at hx

theorem sortBy_eq_sortBy_iff (l₁ l₂ : List α) :
    sortBy order l₁ = sortBy order l₂ ↔ ∀ x, level order x l₁ = level order x l₂ := by
  constructor
  · intro h x
    rw [← level_sortBy, h, level_sortBy]
  · intro h
    apply eq_of_level_eq order (ascending_sortBy order l₁) (ascending_sortBy order l₂)
    intro x
    rw [level_sortBy, level_sortBy, h]

/-- Sorting what comes first before all is sorted makes no difference. -/
theorem sortBy_append_sortBy (l₁ l₂ : List α) :
    sortBy order (sortBy order l₁ ++ l₂) = sortBy order (l₁ ++ l₂) := by
  rw [sortBy_eq_sortBy_iff]
  intro x
  rw [level_append, level_append, level_sortBy]

theorem filter_sortBy (p : α → Bool) (l : List α) :
    (sortBy order l).filter p = sortBy order (l.filter p) := by
  apply eq_of_level_eq order ((ascending_sortBy order l).filter p) (ascending_sortBy order _)
  intro x
  rw [level_filter, level_sortBy, level_sortBy, level_filter]

/-- Where no two elements are equal in the order, the order they came in makes no difference. -/
theorem sortBy_eq_of_perm {l₁ l₂ : List α} (h : l₁.Perm l₂)
    (hne : l₁.Pairwise fun a b => order a b ≠ .eq) : sortBy order l₁ = sortBy order l₂ := by
  rw [sortBy_eq_sortBy_iff]
  intro x
  apply filter_eq_of_perm h
  refine hne.imp fun {a b} hab => ?_
  rintro ⟨ha, hb⟩
  rw [← Std.TransCmp.congr_left (beq_iff_eq.mp ha)] at hab
  exact hab (beq_iff_eq.mp hb)

theorem sortBy_eq_sortBy_then (o₁ o₂ : α → α → Ordering) [Std.TransCmp o₁] [Std.TransCmp o₂]
    {l : List α} (h : Ascending o₂ l) :
    sortBy o₁ l = sortBy (fun a b => (o₁ a b).then (o₂ a b)) l := by
  have : Std.TransCmp fun a b => (o₁ a b).then (o₂ a b) := transCmp_then inferInstance inferInstance
  have hascending : Ascending o₁ (sortBy (fun a b => (o₁ a b).then (o₂ a b)) l) :=
    (ascending_sortBy _ l).imp fun hab => Ordering.isLE_left_of_isLE_then hab
  apply eq_of_level_eq o₁ (ascending_sortBy o₁ l) hascending
  intro x
  rw [level_sortBy]
  unfold level
  rw [filter_sortBy]
  -- Among elements that `o₁` calls equal, the order they are in already is the one sorted by.
  symm
  apply sortBy_of_ascending
  refine (h.filter _).imp_of_mem fun {a b} ha hb hab => ?_
  have heq : o₁ a b = .eq := by
    rw [← Std.TransCmp.congr_left (beq_iff_eq.mp (List.mem_filter.mp ha).2)]
    exact beq_iff_eq.mp (List.mem_filter.mp hb).2
  simpa [heq] using hab

end CodeAudit.Ordered
