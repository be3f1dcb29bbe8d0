import CodeAudit.Proofs.Tree.Calls

namespace CodeAudit.Tree

variable {t : Tree}

/-! ### Walks within walks -/

section Linked

variable (h : t.Linked)

include h

theorem walkFrom_isInfix_of_parent? {c p : Nat} (hc : t.parent? c = some p) :
    t.walkFrom c <:+: t.walkFrom p := by
  have hp : p < t.size := Nat.lt_trans (h.parent_lt hc) (lt_size_of_parent? hc)
  obtain ⟨before, after, hchildren⟩ := List.append_of_mem (h.mem_childrenOf.mpr hc)
  refine ⟨p :: before.flatMap t.walkFrom, after.flatMap t.walkFrom, ?_⟩
  rw [walkFrom_eq h hp, hchildren]
  simp

theorem walkFrom_isInfix {a n : NodeId} (hn : t.Within a n) : t.walkFrom n <:+: t.walkFrom a := by
  induction hn with
  | here => exact List.infix_rfl
  | inside hp _ ih => exact (walkFrom_isInfix_of_parent? h hp).trans ih

theorem nodup_walkFrom {a : Nat} (ha : a < t.size) : (t.walkFrom a).Nodup := by
  rw [walkFrom_eq_levels h ha (by omega : t.size ≤ a + t.size)]
  exact h.loose.nodup_levels t.size (h.grounded a)

theorem outer_before_inner {m d : Nat} (hm : m < t.size) (hd : t.Within m d) (hne : m ≠ d) :
    [m, d].Sublist (t.walkFrom m) := by
  have hmem : d ∈ t.walkFrom m := (mem_walkFrom_iff h hm).mpr hd
  rw [walkFrom_eq h hm] at hmem ⊢
  have hrest : d ∈ (t.childrenOf m).flatMap t.walkFrom :=
    (List.mem_cons.mp hmem).resolve_left (Ne.symm hne)
  exact (List.singleton_sublist.mpr hrest).cons_cons m

theorem childrenOf_eq_of_lt {p c c' : Nat} (hc : t.parent? c = some p)
    (hc' : t.parent? c' = some p) (hlt : c < c') :
    ∃ before after, t.childrenOf p = before ++ c :: after ∧ c' ∈ after := by
  obtain ⟨before, after, hsplit⟩ := List.append_of_mem (h.mem_childrenOf.mpr hc)
  refine ⟨before, after, hsplit, ?_⟩
  have hascending := h.ascending p
  have hmem := h.mem_childrenOf.mpr hc'
  rw [hsplit, List.pairwise_append] at hascending
  rw [hsplit, List.mem_append, List.mem_cons] at hmem
  rcases hmem with hbefore | rfl | hafter
  · have hgt : c' < c := hascending.2.2 c' hbefore c List.mem_cons_self
    omega
  · exact absurd hlt (Nat.lt_irrefl _)
  · exact hafter

theorem siblings_in_order {p c c' m m' : Nat} (hc : t.parent? c = some p)
    (hc' : t.parent? c' = some p) (hlt : c < c') (hm : t.Within c m) (hm' : t.Within c' m') :
    [m, m'].Sublist (t.walkFrom p) := by
  have hp : p < t.size := Nat.lt_trans (h.parent_lt hc) (lt_size_of_parent? hc)
  obtain ⟨before, after, hchildren, hafter⟩ := childrenOf_eq_of_lt h hc hc' hlt
  have hfirst : m ∈ t.walkFrom c := (mem_walkFrom_iff h (lt_size_of_parent? hc)).mpr hm
  have hsecond : m' ∈ after.flatMap t.walkFrom :=
    List.mem_flatMap.mpr ⟨c', hafter, (mem_walkFrom_iff h (lt_size_of_parent? hc')).mpr hm'⟩
  have hpair : [m, m'].Sublist (t.walkFrom c ++ after.flatMap t.walkFrom) :=
    (List.singleton_sublist.mpr hfirst).append (List.singleton_sublist.mpr hsecond)
  rw [walkFrom_eq h hp, hchildren, List.flatMap_append, List.flatMap_cons]
  exact (hpair.trans (List.sublist_append_right _ _)).cons p

theorem ancestors_descending {n : Nat} (hn : n < t.size) : (t.ancestors n).Pairwise (· > ·) := by
  induction n using Nat.strongRecOn with
  | ind n ih =>
    rw [ancestors_eq h hn]
    cases hp : t.parent? n with
    | none => simp
    | some p =>
      have hlt := h.parent_lt hp
      have hsize := Nat.lt_trans hlt hn
      rw [Option.map_some, Option.getD_some, List.pairwise_cons]
      refine ⟨fun a ha => ?_, ih p hlt hsize⟩
      exact Nat.lt_of_le_of_lt ((within_of_mem_ancestors ha).le h.loose) hlt

end Linked

/-! ### From the file node on -/

theorem Made.getLast?_ancestors (h : t.Made) {n : Nat} (hn : n < t.size) :
    (t.ancestors n).getLast? = some rootId := by
  induction n using Nat.strongRecOn with
  | ind n ih =>
    rw [ancestors_eq h.linked hn]
    cases hp : t.parent? n with
    | none =>
      have hzero : n = 0 := by
        by_contra hne
        have hsome := h.rooted.isSome_parent? (Nat.pos_of_ne_zero hne) hn
        rw [hp] at hsome
        cases hsome
      rw [hzero]
      rfl
    | some p =>
      have hlt := h.linked.parent_lt hp
      rw [Option.map_some, Option.getD_some, List.getLast?_cons, ih p hlt (Nat.lt_trans hlt hn)]
      rfl

theorem Made.walk_perm_range (h : t.Made) : t.walk.Perm (List.range t.size) := by
  have hroot : rootId < t.size := h.rooted.size_pos
  have hnodup : t.walk.Nodup := nodup_walkFrom h.linked hroot
  rw [List.perm_ext_iff_of_nodup hnodup List.nodup_range]
  intro n
  rw [List.mem_range]
  refine ⟨fun hn => ?_, fun hn => h.mem_walk hn⟩
  exact ((mem_walkFrom_iff h.linked hroot).mp hn).lt_size hroot

/-- Walks in a tree built with numbers that were handed out have an end and ask for no node that is
not there. They list no node twice, outer nodes before inner ones and siblings' subtrees in the
order the siblings came, and they come by the nodes whose climbs come by their start. Climbs descend
to the file node, and a search along a climb asks for no node that is not there. -/
theorem walks_and_climbs_are_dual {path : Path} {span : Span} {calls : List Call}
    (hcalls : HandedOut path span calls) (h : build? path span calls = some t) :
    (∀ a : Nat, a < t.size →
      t.walkToEnd [a] = some (t.walkFrom a) ∧ (t.walkFrom a).Nodup ∧
      (∀ m d, t.Within a m → t.Within m d → m ≠ d → [m, d].Sublist (t.walkFrom a)) ∧
      (∀ p c c' m m' : Nat, t.Within a p → t.parent? c = some p → t.parent? c' = some p →
        c < c' → t.Within c m → t.Within c' m' → [m, m'].Sublist (t.walkFrom a)) ∧
      ∀ n : Nat, n < t.size → (n ∈ t.walkFrom a ↔ a ∈ t.ancestors n)) ∧
    (∀ n : Nat, n < t.size →
      t.climbToEnd (some n) = some (t.ancestors n) ∧ (t.ancestors n).Pairwise (· > ·) ∧
      (t.ancestors n).getLast? = some rootId ∧
      t.searchUp (t.kindIs NodeKind.isDeclaration) (some n) = some (t.enclosingDeclaration n)) ∧
    t.walkToEnd [rootId] = some t.walk ∧ t.walk.Perm (List.range t.size) := by
  have hmade := made_of_handedOut hcalls h
  have hlinked := hmade.linked
  have hloose := hlinked.loose
  refine ⟨fun a ha => ⟨hloose.walkToEnd_eq ha (hlinked.grounded a), nodup_walkFrom hlinked ha, ?_, ?_, ?_⟩,
    fun n hn => ⟨hloose.climbToEnd_eq hn (hlinked.grounded n), ancestors_descending hlinked hn,
      hmade.getLast?_ancestors hn, hloose.searchUp_eq _ hn (hlinked.grounded n)⟩,
    hloose.walkToEnd_eq hmade.rooted.size_pos (hlinked.grounded rootId), hmade.walk_perm_range⟩
  · intro m d hm hd hne
    have hpair := outer_before_inner hlinked (hm.lt_size ha) hd hne
    exact hpair.trans (walkFrom_isInfix hlinked hm).sublist
  · intro p c c' m m' hp hc hc' hlt hm hm'
    have hpair := siblings_in_order hlinked hc hc' hlt hm hm'
    exact hpair.trans (walkFrom_isInfix hlinked hp).sublist
  · intro n hn
    rw [mem_walkFrom_iff hlinked ha, mem_ancestors_iff hlinked hn]

/-- A class, a function beside it, and then a parameter inside the class. -/
def lateParameter : List Call :=
  [.add 0 .classType (some "A") {}, .add 0 .function (some "f") {},
    .add 1 .parameter (some "x") {}]

theorem walks_and_climbs_are_dual_lateParameter :
    HandedOut ⟨"A.kt"⟩ {} lateParameter ∧
      ∃ t, build? ⟨"A.kt"⟩ {} lateParameter = some t ∧ t.walkToEnd [rootId] = some [0, 1, 3, 2] ∧
        t.climbToEnd (some 3) = some [3, 1, 0] ∧ [3, 2].Sublist (t.walkFrom rootId) ∧
        (3 ∈ t.walkFrom 1 ↔ 1 ∈ t.ancestors 3) := by
  have hcalls : HandedOut ⟨"A.kt"⟩ {} lateParameter := by
    have hempty : HandedOut ⟨"A.kt"⟩ {} [] := .nil
    have hclass := hempty.add (.inl rfl) .classType (some "A") {}
    have hfunction := hclass.add (.inl rfl) .function (some "f") {}
    -- The class was added before the function, and its number is still to be had.
    have hreturned : Returned ⟨"A.kt"⟩ {} [.add 0 .classType (some "A") {}] 1 :=
      .now build?_nil 0 .classType (some "A") {}
    exact hfunction.add (.inr (hreturned.before _)) .parameter (some "x") {}
  obtain ⟨t, hbuild, hsize, hwalk, hclimb, hclass, hparameter, hfunction⟩ :
      ∃ t, build? ⟨"A.kt"⟩ {} lateParameter = some t ∧ t.size = 4 ∧ t.walk = [0, 1, 3, 2] ∧
        t.ancestors 3 = [3, 1, 0] ∧ t.parent? 1 = some 0 ∧ t.parent? 3 = some 1 ∧
        t.parent? 2 = some 0 :=
    ⟨_, rfl, by decide⟩
  obtain ⟨hwalks, hclimbs, hwhole, -⟩ := walks_and_climbs_are_dual hcalls hbuild
  obtain ⟨-, -, -, hsiblings, -⟩ := hwalks rootId (by rw [hsize]; decide)
  obtain ⟨-, -, -, -, hdual⟩ := hwalks 1 (by omega)
  refine ⟨hcalls, t, hbuild, hwalk ▸ hwhole, hclimb ▸ (hclimbs 3 (by omega)).1, ?_,
    hdual 3 (by omega)⟩
  exact hsiblings 0 1 2 3 2 .here hclass hfunction (by decide) (.inside hparameter .here) .here

end CodeAudit.Tree
