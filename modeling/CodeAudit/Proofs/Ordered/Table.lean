import CodeAudit.Ordered.Table

namespace CodeAudit.Table

variable {κ ν : Type}

def Strict (order : κ → κ → Ordering) (t : List (κ × ν)) : Prop :=
  t.Pairwise fun a b => order a.1 b.1 = .lt

variable {order : κ → κ → Ordering}

theorem get?_cons (i k : κ) (v : ν) (t : List (κ × ν)) :
    get? order i ((k, v) :: t) = if order i k = .eq then some v else get? order i t := by
  unfold get?
  by_cases h : order i k = .eq
  · rw [if_pos h, List.find?_cons_of_pos (by simp [h])]
    rfl
  · rw [if_neg h, List.find?_cons_of_neg (by simp [h])]

theorem get?_eq_none {i : κ} {t : List (κ × ν)} (h : ∀ e ∈ t, order i e.1 ≠ .eq) :
    get? order i t = none := by
  induction t with
  | nil => rfl
  | cons e t ih =>
    rw [get?_cons, if_neg (h e (by simp))]
    exact ih fun e' he' => h e' (by simp [he'])

theorem update_nil (k : κ) (f : Option ν → ν) : update order k f [] = [(k, f none)] := rfl

theorem update_cons_of_lt {i k : κ} (f : Option ν → ν) (v : ν) (t : List (κ × ν))
    (h : order i k = .lt) : update order i f ((k, v) :: t) = (i, f none) :: (k, v) :: t := by
  rw [update, h]

theorem update_cons_of_gt {i k : κ} (f : Option ν → ν) (v : ν) (t : List (κ × ν))
    (h : order i k = .gt) : update order i f ((k, v) :: t) = (k, v) :: update order i f t := by
  rw [update, h]

theorem update_cons_self [Std.ReflCmp order] (k : κ) (f : Option ν → ν) (v : ν)
    (t : List (κ × ν)) : update order k f ((k, v) :: t) = (k, f (some v)) :: t := by
  have hself : order k k = .eq := Std.ReflCmp.compare_self
  rw [update, hself]

theorem update_append {k : κ} {t : List (κ × ν)} (f : Option ν → ν)
    (h : ∀ e ∈ t, order k e.1 = .gt) (u : List (κ × ν)) :
    update order k f (t ++ u) = t ++ update order k f u := by
  induction t with
  | nil => rfl
  | cons e t ih =>
    rw [List.cons_append, update_cons_of_gt f e.2 (t ++ u) (h e List.mem_cons_self),
      ih fun e' he' => h e' (List.mem_cons_of_mem e he')]
    rfl

theorem mem_update {k : κ} {f : Option ν → ν} {t : List (κ × ν)} {e : κ × ν}
    (h : e ∈ update order k f t) : e.1 = k ∨ ∃ e' ∈ t, e.1 = e'.1 := by
  induction t with
  | nil => simp_all [update]
  | cons head t ih =>
    obtain ⟨k', v⟩ := head
    unfold update at h
    split at h <;> simp only [List.mem_cons] at h ⊢
    · rcases h with rfl | rfl | h
      · exact .inl rfl
      · exact .inr ⟨_, .inl rfl, rfl⟩
      · exact .inr ⟨e, .inr h, rfl⟩
    · rcases h with rfl | h
      · exact .inr ⟨_, .inl rfl, rfl⟩
      · exact .inr ⟨e, .inr h, rfl⟩
    · rcases h with rfl | h
      · exact .inr ⟨_, .inl rfl, rfl⟩
      · rcases ih h with hk | ⟨e', he', hk⟩
        · exact .inl hk
        · exact .inr ⟨e', .inr he', hk⟩

theorem forall_update {P : κ × ν → Prop} {k : κ} {f : Option ν → ν} {t : List (κ × ν)}
    (ht : ∀ e ∈ t, P e) (hnew : P (k, f none)) (hold : ∀ e ∈ t, P (e.1, f (some e.2))) :
    ∀ e ∈ update order k f t, P e := by
  induction t with
  | nil => simpa [update] using hnew
  | cons head t ih =>
    obtain ⟨hhead, htail⟩ := List.forall_mem_cons.mp ht
    obtain ⟨hchanged, hrest⟩ := List.forall_mem_cons.mp hold
    unfold update
    split
    · exact List.forall_mem_cons.mpr ⟨hnew, ht⟩
    · exact List.forall_mem_cons.mpr ⟨hchanged, htail⟩
    · exact List.forall_mem_cons.mpr ⟨hhead, ih htail hrest⟩

/-- A key that the table does not hold is added and nothing else changes. -/
theorem update_perm {k : κ} {t : List (κ × ν)} (f : Option ν → ν)
    (h : ∀ e ∈ t, order k e.1 ≠ .eq) : (update order k f t).Perm ((k, f none) :: t) := by
  induction t with
  | nil => exact .refl _
  | cons head t ih =>
    obtain ⟨k', v⟩ := head
    unfold update
    split
    · exact .refl _
    · rename_i heq
      exact absurd heq (h (k', v) (by simp))
    · exact ((ih fun e he => h e (by simp [he])).cons _).trans (.swap _ _ _)

theorem filter_key [Std.LawfulEqCmp order] {t : List (κ × ν)} (h : Strict order t) (i : κ) :
    t.filter (fun e => order i e.1 == .eq) = ((get? order i t).map fun v => (i, v)).toList := by
  induction t with
  | nil => rfl
  | cons e t ih =>
    have ⟨hhead, htail⟩ := List.pairwise_cons.mp h
    rw [get?_cons]
    by_cases he : order i e.1 = .eq
    · have hkey : i = e.1 := Std.LawfulEqCmp.eq_of_compare he
      have hrest : t.filter (fun e => order i e.1 == .eq) = [] := by
        rw [List.filter_eq_nil_iff]
        intro e' he'
        simp [hkey, hhead e' he']
      rw [List.filter_cons_of_pos (by simp [he]), hrest, if_pos he, hkey]
      rfl
    · rw [List.filter_cons_of_neg (by simp [he]), ih htail, if_neg he]

theorem mem_iff_get? [Std.LawfulEqCmp order] {t : List (κ × ν)} (h : Strict order t) {k : κ}
    {v : ν} : (k, v) ∈ t ↔ get? order k t = some v := by
  have hfilter := filter_key h k
  constructor
  · intro hmem
    have hself : (k, v) ∈ t.filter fun e => order k e.1 == .eq :=
      List.mem_filter.mpr ⟨hmem, by simp [Std.ReflCmp.compare_self]⟩
    rw [hfilter, Option.mem_toList, Option.map_eq_some_iff] at hself
    obtain ⟨v', hget, heq⟩ := hself
    rw [hget, (Prod.mk.inj heq).2]
  · intro hget
    have hself : (k, v) ∈ t.filter fun e => order k e.1 == .eq := by
      rw [hfilter, hget]
      exact List.mem_singleton_self _
    exact (List.mem_filter.mp hself).1

variable [Std.TransCmp order]

theorem strict_update {t : List (κ × ν)} (k : κ) (f : Option ν → ν) (h : Strict order t) :
    Strict order (update order k f t) := by
  induction t with
  | nil => simp [update, Strict]
  | cons head t ih =>
    obtain ⟨k', v⟩ := head
    have ⟨hhead, htail⟩ := List.pairwise_cons.mp h
    unfold update
    split
    · rename_i hlt
      refine List.pairwise_cons.mpr ⟨fun e he => ?_, h⟩
      rcases List.mem_cons.mp he with rfl | he
      · exact hlt
      · exact Std.TransCmp.lt_trans hlt (hhead e he)
    · exact List.pairwise_cons.mpr ⟨hhead, htail⟩
    · rename_i hgt
      refine List.pairwise_cons.mpr ⟨fun e he => ?_, ih htail⟩
      -- A key behind the head was there before, or is the one that is written.
      rcases mem_update he with hk | ⟨e', he', hk⟩
      · exact hk ▸ Std.OrientedCmp.lt_of_gt hgt
      · exact hk ▸ hhead e' he'

theorem get?_update_self {t : List (κ × ν)} (k : κ) (f : Option ν → ν) (h : Strict order t) :
    get? order k (update order k f t) = some (f (get? order k t)) := by
  induction t with
  | nil => rw [update, get?_cons, if_pos Std.ReflCmp.compare_self]; rfl
  | cons head t ih =>
    obtain ⟨k', v⟩ := head
    have ⟨hhead, htail⟩ := List.pairwise_cons.mp h
    unfold update
    split
    · rename_i hlt
      -- The keys from here on are greater, so the table held nothing under this one.
      have hnone : get? order k ((k', v) :: t) = none := by
        apply get?_eq_none
        intro e he
        rcases List.mem_cons.mp he with rfl | he
        · simp [hlt]
        · simp [Std.TransCmp.lt_trans hlt (hhead e he)]
      rw [get?_cons, if_pos Std.ReflCmp.compare_self, hnone]
    · rename_i heq
      rw [get?_cons, get?_cons, if_pos heq, if_pos heq]
    · rename_i hgt
      rw [get?_cons, get?_cons, if_neg (by simp [hgt]), if_neg (by simp [hgt]), ih htail]

theorem get?_update_of_ne {i k : κ} (f : Option ν → ν) (t : List (κ × ν))
    (h : order i k ≠ .eq) : get? order i (update order k f t) = get? order i t := by
  induction t with
  | nil => rw [update, get?_cons, if_neg h]
  | cons head t ih =>
    obtain ⟨k', v⟩ := head
    unfold update
    split
    · rw [get?_cons, if_neg h]
    · rename_i heq
      have hne : order i k' ≠ .eq := by rwa [← Std.TransCmp.congr_right heq]
      rw [get?_cons, get?_cons, if_neg hne, if_neg hne]
    · rw [get?_cons, get?_cons, ih]

theorem get?_append {ω : Type} {t : List (κ × List ω)} (i k : κ) (xs : List ω)
    (h : Strict order t) :
    (get? order i (update order k (fun old => old.getD [] ++ xs) t)).getD [] =
      (get? order i t).getD [] ++ if order i k = .eq then xs else [] := by
  by_cases hik : order i k = .eq
  · rw [if_pos hik]
    have hcongr (t : List (κ × List ω)) : get? order i t = get? order k t := by
      unfold get?
      simp only [Std.TransCmp.congr_left hik]
    rw [hcongr, hcongr, get?_update_self k _ h]
    rfl
  · rw [if_neg hik, get?_update_of_ne _ _ hik, List.append_nil]

theorem Strict.eq_of_perm {t t' : List (κ × ν)} (ht : Strict order t) (ht' : Strict order t')
    (h : t.Perm t') : t = t' := by
  refine h.eq_of_pairwise ?_ ht ht'
  intro a b _ _ hab hba
  exact absurd (hab.symm.trans (Std.OrientedCmp.gt_of_lt hba)) (by simp)

theorem strict_foldl_update {μ : Type} {t : List (κ × ν)} (key : μ → κ)
    (f : μ → Option ν → ν) (l : List μ) (h : Strict order t) :
    Strict order (l.foldl (fun t x => update order (key x) (f x) t) t) := by
  induction l generalizing t with
  | nil => exact h
  | cons x l ih => exact ih (strict_update (key x) (f x) h)

theorem foldl_update_perm {μ : Type} {l : List (κ × μ)} {t : List (κ × ν)}
    (f : κ × μ → Option ν → ν) (hl : l.Pairwise fun a b => order a.1 b.1 ≠ .eq)
    (ht : ∀ x ∈ l, ∀ e ∈ t, order x.1 e.1 ≠ .eq) :
    (l.foldl (fun t x => update order x.1 (f x) t) t).Perm
      (l.map (fun x => (x.1, f x none)) ++ t) := by
  induction l generalizing t with
  | nil => exact .refl _
  | cons x l ih =>
    have ⟨hx, hrest⟩ := List.pairwise_cons.mp hl
    have hfresh : ∀ y ∈ l, ∀ e ∈ update order x.1 (f x) t, order y.1 e.1 ≠ .eq := by
      intro y hy e he heq
      rcases mem_update he with hk | ⟨e', he', hk⟩
      · exact hx y hy (Std.OrientedCmp.eq_symm (hk ▸ heq))
      · exact ht y (by simp [hy]) e' he' (hk ▸ heq)
    have hstep := update_perm (f x) (ht x (by simp))
    exact (ih hrest hfresh).trans ((hstep.append_left _).trans List.perm_middle)

/-- Entries with different keys make up the same table in whatever order they are written. -/
theorem foldl_update_eq_of_perm {μ : Type} {l l' : List (κ × μ)} (f : κ × μ → Option ν → ν)
    (h : l.Perm l') (hl : l.Pairwise fun a b => order a.1 b.1 ≠ .eq) :
    l.foldl (fun t x => update order x.1 (f x) t) ([] : List (κ × ν)) =
      l'.foldl (fun t x => update order x.1 (f x) t) [] := by
  have hl' : l'.Pairwise fun a b => order a.1 b.1 ≠ .eq :=
    (h.pairwise_iff fun hab heq => hab (Std.OrientedCmp.eq_symm heq)).mp hl
  have hwritten := foldl_update_perm f hl (t := []) (by simp)
  have hwritten' := foldl_update_perm f hl' (t := []) (by simp)
  have hperm := hwritten.trans (((h.map _).append_right []).trans hwritten'.symm)
  exact (strict_foldl_update Prod.fst f l .nil).eq_of_perm (strict_foldl_update Prod.fst f l' .nil)
    hperm

/-- The entries of a strict table, written into an empty one in any order, make up the table. -/
theorem foldl_update_eq_map {μ : Type} {s l : List (κ × μ)} (f : κ × μ → Option ν → ν)
    (hs : Strict order s) (h : l.Perm s) :
    l.foldl (fun t x => update order x.1 (f x) t) [] = s.map fun x => (x.1, f x none) := by
  have hne : s.Pairwise fun a b => order a.1 b.1 ≠ .eq := hs.imp fun hlt => by simp [hlt]
  have hl : l.Pairwise fun a b => order a.1 b.1 ≠ .eq :=
    (h.pairwise_iff fun hab heq => hab (Std.OrientedCmp.eq_symm heq)).mpr hne
  have hperm := (foldl_update_perm f hl (t := []) (by simp)).trans
    (by simpa using h.map fun x => (x.1, f x none))
  exact (strict_foldl_update Prod.fst f l .nil).eq_of_perm (hs.map _ fun _ _ hlt => hlt) hperm

/-! ### What a table holds -/

section Lawful

variable [Std.LawfulEqCmp order] {t t' : List (κ × ν)}

theorem Strict.ext (ht : Strict order t) (ht' : Strict order t')
    (h : ∀ k, get? order k t = get? order k t') : t = t' := by
  have hnodup {t : List (κ × ν)} (ht : Strict order t) : t.Nodup := by
    refine ht.imp ?_
    rintro e _ hlt rfl
    simp [Std.ReflCmp.compare_self] at hlt
  refine ht.eq_of_perm ht' ?_
  rw [List.perm_ext_iff_of_nodup (hnodup ht) (hnodup ht')]
  rintro ⟨k, v⟩
  rw [mem_iff_get? ht, mem_iff_get? ht', h]

theorem get?_update (i k : κ) (f : Option ν → ν) (h : Strict order t) :
    get? order i (update order k f t) =
      if order i k = .eq then some (f (get? order i t)) else get? order i t := by
  split
  next hik =>
    obtain rfl := Std.LawfulEqCmp.eq_of_compare hik
    exact get?_update_self i f h
  next hik => exact get?_update_of_ne f t hik

theorem update_update (k : κ) (f g : Option ν → ν) (h : Strict order t) :
    update order k f (update order k g t) = update order k (fun old => f (some (g old))) t := by
  have hg : Strict order (update order k g t) := strict_update k g h
  refine (strict_update k f hg).ext (strict_update k _ h) fun i => ?_
  rw [get?_update i k f hg, get?_update i k g h, get?_update i k _ h]
  split <;> rfl

theorem get?_foldl_update {μ : Type} (key : μ → κ) (f : μ → Option ν → ν) (l : List μ) (i : κ)
    (h : Strict order t) :
    get? order i (l.foldl (fun t x => update order (key x) (f x) t) t) =
      (l.filter fun x => order i (key x) == .eq).foldl (fun old x => some (f x old))
        (get? order i t) := by
  induction l generalizing t with
  | nil => rfl
  | cons x l ih =>
    rw [List.foldl_cons, ih (strict_update (key x) (f x) h), get?_update i (key x) (f x) h]
    by_cases hx : order i (key x) = .eq
    · rw [if_pos hx, List.filter_cons_of_pos (by simp [hx]), List.foldl_cons]
    · rw [if_neg hx, List.filter_cons_of_neg (by simp [hx])]

end Lawful

end CodeAudit.Table
