import CodeAudit.Proofs.Tree.Linked
import CodeAudit.Tree.Signature
import Mathlib.Data.List.Nodup
import Mathlib.Data.List.Perm.Subperm

namespace CodeAudit.Tree

variable {t : Tree}

/-! ### Subtrees -/

/-- A node is within the subtree of another when a climb from it comes by the other. -/
inductive Within (t : Tree) (top : NodeId) : NodeId → Prop
  | here : Within t top top
  | inside {p n : NodeId} (hp : t.parent? n = some p) (hwithin : Within t top p) : Within t top n

namespace Within

variable {a b n : NodeId}

theorem of_child (hn : t.Within b n) (hb : t.parent? b = some a) : t.Within a n := by
  induction hn with
  | here => exact .inside hb .here
  | inside hp _ ih => exact .inside hp ih

theorem trans (hb : t.Within a b) (hn : t.Within b n) : t.Within a n := by
  induction hn with
  | here => exact hb
  | inside hp _ ih => exact .inside hp ih

theorem le (h : t.Loose) (hn : t.Within a n) : a ≤ n := by
  induction hn with
  | here => exact Nat.le_refl a
  | inside hp _ ih => exact Nat.le_trans ih (h.parent_le hp)

theorem lt_size (hn : t.Within a n) (ha : a < t.size) : n < t.size := by
  cases hn with
  | here => exact ha
  | inside hp _ => exact lt_size_of_parent? hp

theorem total (ha : t.Within a n) (hb : t.Within b n) : t.Within a b ∨ t.Within b a := by
  induction hb with
  | here => exact .inl ha
  | inside hp hb ih =>
    cases ha with
    | here => exact .inr (.inside hp hb)
    | inside hp' ha =>
      obtain rfl := Option.some.inj (hp'.symm.trans hp)
      exact ih ha

end Within

/-- No node around the given one, itself included, is its own parent. -/
def Grounded (t : Tree) (id : NodeId) : Prop :=
  ∀ a, t.Within a id → t.parent? a ≠ some a

theorem Linked.grounded (h : t.Linked) (id : NodeId) : t.Grounded id := fun _ _ hown =>
  absurd (h.parent_lt hown) (Nat.lt_irrefl _)

namespace Grounded

variable {id p : NodeId}

theorem of_parent (hp : t.parent? id = some p) (h : t.Grounded p) : t.Grounded id := by
  intro a ha hown
  cases ha with
  | here =>
    obtain rfl := Option.some.inj (hp.symm.trans hown)
    exact h _ .here hown
  | inside hp' ha =>
    obtain rfl := Option.some.inj (hp.symm.trans hp')
    exact h a ha hown

theorem of_no_parent (hp : t.parent? id = none) : t.Grounded id := by
  intro a ha hown
  cases ha with
  | here => simp [hp] at hown
  | inside hp' _ => simp [hp] at hp'

theorem of_within {a : NodeId} (h : t.Grounded id) (ha : t.Within a id) : t.Grounded a :=
  fun b hb => h b (hb.trans ha)

theorem of_inside {n : NodeId} (h : t.Grounded id) (hn : t.Within id n) : t.Grounded n := by
  induction hn with
  | here => exact h
  | inside hp _ ih => exact .of_parent hp ih

theorem parent (h : t.Grounded id) (hp : t.parent? id = some p) : t.Grounded p :=
  h.of_within (.inside hp .here)

end Grounded

namespace Loose

variable (h : t.Loose)

include h

theorem parent_lt {id p : Nat} (hid : t.Grounded id) (hp : t.parent? id = some p) : p < id := by
  have hle := h.parent_le hp
  have hne : p ≠ id := by
    rintro rfl
    exact hid p .here hp
  omega

theorem eq_of_within_sibling {p c c' : Nat} (hp : t.Grounded p) (hc : t.parent? c = some p)
    (hc' : t.parent? c' = some p) (hwithin : t.Within c c') : c = c' := by
  cases hwithin with
  | here => rfl
  | inside hq hwithin =>
    obtain rfl := Option.some.inj (hq.symm.trans hc')
    exact absurd (hwithin.le h) (Nat.not_le.mpr (h.parent_lt (.of_parent hc hp) hc))

theorem eq_of_siblings {p c c' n : NodeId} (hp : t.Grounded p) (hc : t.parent? c = some p)
    (hc' : t.parent? c' = some p) (hn : t.Within c n) (hn' : t.Within c' n) : c = c' := by
  rcases hn.total hn' with hwithin | hwithin
  · exact h.eq_of_within_sibling hp hc hc' hwithin
  · exact (h.eq_of_within_sibling hp hc' hc hwithin).symm

end Loose

/-! ### Climbing -/

theorem Loose.climb_congr (h : t.Loose) {id steps steps' : Nat} (hid : t.Grounded id)
    (hsteps : id < steps) (hsteps' : id < steps') :
    t.climb steps (some id) = t.climb steps' (some id) := by
  induction id using Nat.strongRecOn generalizing steps steps' with
  | ind id ih =>
    obtain ⟨k, rfl⟩ : ∃ k, steps = k + 1 := ⟨steps - 1, by omega⟩
    obtain ⟨k', rfl⟩ : ∃ k', steps' = k' + 1 := ⟨steps' - 1, by omega⟩
    rw [climb, climb]
    cases hp : t.parent? id with
    | none => rw [climb, climb]
    | some p =>
      have hlt := h.parent_lt hid hp
      exact congrArg (id :: ·) (ih p hlt (hid.parent hp) (by omega) (by omega))

theorem Loose.ancestors_eq (h : t.Loose) {id : Nat} (hid : id < t.size) (hground : t.Grounded id) :
    t.ancestors id = id :: ((t.parent? id).map t.ancestors).getD [] := by
  have hclimb : ∀ {n}, n < t.size → t.ancestors n = t.climb t.size (some n) := by
    intro n hn
    rw [ancestors, node?, Array.getElem?_eq_getElem hn]
    rfl
  obtain ⟨k, hk⟩ : ∃ k, t.size = k + 1 := ⟨t.size - 1, by omega⟩
  rw [hclimb hid, hk, climb]
  cases hp : t.parent? id with
  | none => rw [climb]; rfl
  | some p =>
    have hlt := h.parent_lt hground hp
    have hpk : p < k := Nat.lt_of_lt_of_le hlt (by omega)
    rw [Option.map_some, Option.getD_some, hclimb (Nat.lt_trans hlt hid),
      h.climb_congr (hground.parent hp) hpk (Nat.lt_trans hlt hid)]

theorem ancestors_eq (h : t.Linked) {id : Nat} (hid : id < t.size) :
    t.ancestors id = id :: ((t.parent? id).map t.ancestors).getD [] :=
  h.loose.ancestors_eq hid (h.grounded id)

theorem owner_of_parent {id p : NodeId} (hp : t.parent? id = some p) :
    t.owner id = t.enclosingDeclaration p := by
  rw [owner, hp, Option.bind_some]

theorem enclosingDeclaration_eq (h : t.Linked) {id : Nat} (hid : id < t.size) :
    t.enclosingDeclaration id =
      if t.kindIs NodeKind.isDeclaration id then some id else t.owner id := by
  unfold enclosingDeclaration owner
  rw [ancestors_eq h hid, List.find?_cons]
  cases t.kindIs NodeKind.isDeclaration id with
  | true => rfl
  | false => cases t.parent? id <;> rfl

theorem declarationsAround_eq (h : t.Linked) {id : Nat} (hid : id < t.size) :
    t.declarationsAround id =
      ((t.parent? id).map t.declarationsAround).getD [] ++
        if t.kindIs NodeKind.isDeclaration id then [id] else [] := by
  unfold declarationsAround
  rw [ancestors_eq h hid, List.filter_cons]
  cases t.parent? id <;> cases t.kindIs NodeKind.isDeclaration id <;> simp

theorem within_of_mem_climb {m n : NodeId} {steps : Nat} (hm : m ∈ t.climb steps (some n)) :
    t.Within m n := by
  induction steps generalizing n with
  | zero => cases hm
  | succ steps ih =>
    rcases List.mem_cons.mp hm with rfl | hm
    · exact .here
    · cases hp : t.parent? n with
      | none => simp [hp, climb] at hm
      | some p => exact .inside hp (ih (hp ▸ hm))

theorem within_of_mem_ancestors {m n : NodeId} (hm : m ∈ t.ancestors n) : t.Within m n := by
  rw [ancestors] at hm
  cases hn : t.node? n with
  | none => simp [hn, climb] at hm
  | some node =>
    rw [hn] at hm
    exact within_of_mem_climb hm

theorem Loose.mem_ancestors_iff (h : t.Loose) {m : NodeId} {n : Nat} (hn : n < t.size)
    (hground : t.Grounded n) : m ∈ t.ancestors n ↔ t.Within m n := by
  refine ⟨within_of_mem_ancestors, fun hm => ?_⟩
  induction hm with
  | here =>
    rw [h.ancestors_eq hn hground]
    exact List.mem_cons_self
  | inside hp _ ih =>
    rw [h.ancestors_eq hn hground, hp]
    exact List.mem_cons_of_mem _
      (ih (Nat.lt_trans (h.parent_lt hground hp) hn) (hground.parent hp))

theorem mem_ancestors_iff (h : t.Linked) {m : NodeId} {n : Nat} (hn : n < t.size) :
    m ∈ t.ancestors n ↔ t.Within m n :=
  h.loose.mem_ancestors_iff hn (h.grounded n)

/-! ### Walking -/

/-- The subtree of a node in pre-order, so many levels of it. -/
def levels (t : Tree) : Nat → NodeId → List NodeId
  | 0, _ => []
  | depth + 1, id => id :: (t.childrenOf id).flatMap (t.levels depth)

namespace Loose

variable (h : t.Loose)

include h

theorem within_of_mem_levels {depth : Nat} {id n : NodeId} (hn : n ∈ t.levels depth id) :
    t.Within id n := by
  induction depth generalizing id with
  | zero => cases hn
  | succ depth ih =>
    rw [levels, List.mem_cons, List.mem_flatMap] at hn
    rcases hn with rfl | ⟨c, hc, hn⟩
    · exact .here
    · exact (ih hn).of_child (h.mem_childrenOf.mp hc)

theorem nodup_levels (depth : Nat) {id : NodeId} (hid : t.Grounded id) :
    (t.levels depth id).Nodup := by
  induction depth generalizing id with
  | zero => exact List.nodup_nil
  | succ depth ih =>
    have hground : ∀ {c}, c ∈ t.childrenOf id → t.Grounded c := fun hc =>
      .of_parent (h.mem_childrenOf.mp hc) hid
    rw [levels, List.nodup_cons, List.nodup_flatMap]
    refine ⟨fun hmem => ?_, fun c hc => ih (hground hc), ?_⟩
    · obtain ⟨c, hc, hmem⟩ := List.mem_flatMap.mp hmem
      have hlt := h.parent_lt (hground hc) (h.mem_childrenOf.mp hc)
      exact absurd ((h.within_of_mem_levels hmem).le h) (Nat.not_le.mpr hlt)
    · have hnodup : (t.childrenOf id).Nodup := (h.ascending id).imp Nat.ne_of_lt
      refine hnodup.imp_of_mem fun {c c'} hc hc' hne n hn hn' => hne ?_
      exact h.eq_of_siblings hid (h.mem_childrenOf.mp hc) (h.mem_childrenOf.mp hc')
        (h.within_of_mem_levels hn) (h.within_of_mem_levels hn')

theorem length_levels_le (depth : Nat) {id : Nat} (hid : id < t.size) (hground : t.Grounded id) :
    (t.levels depth id).length ≤ t.size := by
  have hsubset : t.levels depth id ⊆ List.range t.size := fun n hn =>
    List.mem_range.mpr ((h.within_of_mem_levels hn).lt_size hid)
  simpa using (List.subperm_of_subset (h.nodup_levels depth hground) hsubset).length_le

end Loose

theorem visit_flatMap {f : NodeId → List NodeId} {ids : List NodeId}
    (h : ∀ id ∈ ids, ∀ steps rest,
      t.visit ((f id).length + steps) (id :: rest) = f id ++ t.visit steps rest)
    (steps : Nat) (rest : List NodeId) :
    t.visit ((ids.flatMap f).length + steps) (ids ++ rest) =
      ids.flatMap f ++ t.visit steps rest := by
  induction ids with
  | nil => simp
  | cons id ids ih =>
    rw [List.flatMap_cons, List.length_append, Nat.add_assoc, List.cons_append,
      h id List.mem_cons_self, ih fun c hc => h c (List.mem_cons_of_mem id hc),
      List.append_assoc]

theorem Loose.visit_levels (h : t.Loose) {depth : Nat} {id : Nat} (hid : id < t.size)
    (hground : t.Grounded id) (hdepth : t.size ≤ id + depth) (steps : Nat) (rest : List NodeId) :
    t.visit ((t.levels depth id).length + steps) (id :: rest) =
      t.levels depth id ++ t.visit steps rest := by
  induction depth generalizing id steps rest with
  | zero => omega
  | succ depth ih =>
    have hchildren : ∀ c ∈ t.childrenOf id, ∀ steps rest,
        t.visit ((t.levels depth c).length + steps) (c :: rest) =
          t.levels depth c ++ t.visit steps rest := by
      intro c hc
      have hp := h.mem_childrenOf.mp hc
      have hc' : t.Grounded c := .of_parent hp hground
      have hlt := h.parent_lt hc' hp
      exact ih (lt_size_of_parent? hp) hc' (by omega)
    rw [levels, List.length_cons, Nat.add_right_comm, visit, visit_flatMap hchildren,
      List.cons_append]

theorem Loose.walkFrom_eq_levels (h : t.Loose) {depth : Nat} {id : Nat} (hid : id < t.size)
    (hground : t.Grounded id) (hdepth : t.size ≤ id + depth) :
    t.walkFrom id = t.levels depth id := by
  obtain ⟨left, hleft⟩ := Nat.exists_eq_add_of_le (h.length_levels_le depth hid hground)
  rw [walkFrom, if_pos hid]
  calc t.visit t.size [id]
      = t.visit ((t.levels depth id).length + left) [id] := by rw [← hleft]
    _ = t.levels depth id ++ t.visit left [] := h.visit_levels hid hground hdepth left []
    _ = t.levels depth id := by cases left <;> simp [visit]

theorem walkFrom_eq_levels (h : t.Linked) {depth : Nat} {id : Nat} (hid : id < t.size)
    (hdepth : t.size ≤ id + depth) : t.walkFrom id = t.levels depth id :=
  h.loose.walkFrom_eq_levels hid (h.grounded id) hdepth

theorem walkFrom_eq (h : t.Linked) {id : Nat} (hid : id < t.size) :
    t.walkFrom id = id :: (t.childrenOf id).flatMap t.walkFrom := by
  rw [walkFrom_eq_levels h hid (by omega : t.size ≤ id + (t.size + 1)), levels]
  congr 1
  refine List.flatMap_congr fun c hc => ?_
  rw [walkFrom_eq_levels h (h.lt_size_of_mem hc) (by omega : t.size ≤ c + t.size)]

theorem Loose.mem_levels_of_parent? (h : t.Loose) {depth : Nat} {id p c : NodeId}
    (hp : p ∈ t.levels depth id) (hc : t.parent? c = some p) : c ∈ t.levels (depth + 1) id := by
  induction depth generalizing id with
  | zero => cases hp
  | succ depth ih =>
    rw [levels, List.mem_cons, List.mem_flatMap] at hp
    rw [levels, List.mem_cons, List.mem_flatMap]
    rcases hp with rfl | ⟨c', hc', hp⟩
    · exact .inr ⟨c, h.mem_childrenOf.mpr hc, List.mem_cons_self⟩
    · exact .inr ⟨c', hc', ih hp⟩

theorem Loose.mem_walkFrom_iff (h : t.Loose) {id n : Nat} (hid : id < t.size)
    (hground : t.Grounded id) : n ∈ t.walkFrom id ↔ t.Within id n := by
  have hlevels := h.walkFrom_eq_levels hid hground (by omega : t.size ≤ id + t.size)
  have hdeeper := h.walkFrom_eq_levels hid hground (by omega : t.size ≤ id + (t.size + 1))
  constructor
  · rw [hlevels]
    exact h.within_of_mem_levels
  · intro hn
    induction hn with
    | here =>
      rw [hdeeper, levels]
      exact List.mem_cons_self
    | inside hp _ ih =>
      rw [hlevels] at ih
      rw [hdeeper]
      exact h.mem_levels_of_parent? ih hp

theorem mem_walkFrom_iff (h : t.Linked) {id n : Nat} (hid : id < t.size) :
    n ∈ t.walkFrom id ↔ t.Within id n :=
  h.loose.mem_walkFrom_iff hid (h.grounded id)

end CodeAudit.Tree
