import CodeAudit.Proofs.Tree.Walk

/-!
Climbing, searching and walking without a count of steps. These loops have an outcome if they come
to an end and never ask for a node that is not there. In a tree where no node comes before its
parent, the only climb without an end is one that meets a node that is its own parent.
-/

namespace CodeAudit.Tree

variable {t : Tree}

def climbToEnd (t : Tree) (next : Option NodeId) : Option (List NodeId) :=
  match next with
  | none => some []
  | some id => do return id :: (← t |>.climbToEnd (t.parent? id))
partial_fixpoint

/-- Follows parents to the first node that passes a test. -/
def searchUp (t : Tree) (p : NodeId → Bool) (next : Option NodeId) : Option (Option NodeId) :=
  match next with
  | none => some none
  | some id => do
    let _ ← t.node? id
    if p id then some (some id) else t |>.searchUp p (t.parent? id)
partial_fixpoint

/-- Visits the nodes of a stack, each followed by its children in order, until none is left. -/
def walkToEnd (t : Tree) (stack : List NodeId) : Option (List NodeId) :=
  match stack with
  | [] => some []
  | id :: rest => do
    let n ← t.node? id
    return id :: (← t |>.walkToEnd (n.children ++ rest))
partial_fixpoint

/-! ### Climbs with and without a count -/

theorem climbToEnd_none (t : Tree) : t.climbToEnd none = some [] := by
  rw [climbToEnd]

theorem climbToEnd_some (t : Tree) (id : NodeId) :
    t.climbToEnd (some id) = (t.climbToEnd (t.parent? id)).map (id :: ·) := by
  rw [climbToEnd]
  cases t.climbToEnd (t.parent? id) <;> rfl

theorem climb_of_climbToEnd {next : Option NodeId} {ids : List NodeId}
    (h : t.climbToEnd next = some ids) {steps : Nat} (hsteps : ids.length ≤ steps) :
    t.climb steps next = ids := by
  -- The list that the climb gives tells how many steps it took.
  induction ids generalizing next steps with
  | nil =>
    cases next with
    | none => rw [climb]
    | some id =>
      rw [climbToEnd_some] at h
      simp at h
  | cons a ids ih =>
    cases next with
    | none =>
      rw [climbToEnd_none] at h
      simp at h
    | some id =>
      rw [climbToEnd_some] at h
      obtain ⟨rest, hrest, heq⟩ := Option.map_eq_some_iff.mp h
      obtain ⟨rfl, rfl⟩ := List.cons.inj heq
      obtain ⟨k, rfl⟩ : ∃ k, steps = k + 1 := ⟨steps - 1, by simp at hsteps; omega⟩
      rw [climb, ih hrest (by simpa using hsteps)]

theorem length_climb_of_endless {next : Option NodeId} (h : t.climbToEnd next = none)
    (steps : Nat) : (t.climb steps next).length = steps := by
  induction steps generalizing next with
  | zero => cases next <;> simp [climb]
  | succ steps ih =>
    cases next with
    | none =>
      rw [climbToEnd_none] at h
      simp at h
    | some id =>
      rw [climbToEnd_some, Option.map_eq_none_iff] at h
      rw [climb, List.length_cons, ih h]

theorem climbToEnd_eq_none_iff {next : Option NodeId} :
    t.climbToEnd next = none ↔ ∀ steps, (t.climb steps next).length = steps := by
  refine ⟨fun h => length_climb_of_endless h, fun h => ?_⟩
  by_contra hsome
  obtain ⟨ids, hids⟩ := Option.ne_none_iff_exists'.mp hsome
  have hclimb := climb_of_climbToEnd hids (Nat.le_succ ids.length)
  have hlength := h (ids.length + 1)
  rw [hclimb] at hlength
  omega

theorem Loose.climbToEnd_eq (h : t.Loose) {id : Nat} (hid : id < t.size) (hground : t.Grounded id) :
    t.climbToEnd (some id) = some (t.ancestors id) := by
  induction id using Nat.strongRecOn with
  | ind id ih =>
    rw [climbToEnd_some, h.ancestors_eq hid hground]
    cases hp : t.parent? id with
    | none => simp [climbToEnd_none]
    | some p =>
      have hlt := h.parent_lt hground hp
      rw [ih p hlt (Nat.lt_trans hlt hid) (hground.parent hp)]
      rfl

theorem grounded_of_climbToEnd {id : NodeId} {ids : List NodeId}
    (h : t.climbToEnd (some id) = some ids) : t.Grounded id := by
  induction ids generalizing id with
  | nil =>
    rw [climbToEnd_some] at h
    simp at h
  | cons a ids ih =>
    rw [climbToEnd_some] at h
    obtain ⟨rest, hrest, heq⟩ := Option.map_eq_some_iff.mp h
    obtain ⟨rfl, rfl⟩ := List.cons.inj heq
    cases hp : t.parent? id with
    | none => exact .of_no_parent hp
    | some p => exact .of_parent hp (ih (hp ▸ hrest))

theorem climbToEnd_eq_none {id : NodeId} (h : ¬ t.Grounded id) : t.climbToEnd (some id) = none := by
  rw [Option.eq_none_iff_forall_ne_some]
  intro ids hids
  exact h (grounded_of_climbToEnd hids)

/-! ### Searching -/

theorem searchUp_none (t : Tree) (p : NodeId → Bool) : t.searchUp p none = some none := by
  rw [searchUp]

theorem searchUp_some (p : NodeId → Bool) {id : Nat} (hid : id < t.size) :
    t.searchUp p (some id) = if p id then some (some id) else t.searchUp p (t.parent? id) := by
  have hnode : t.node? id = some t.nodes[id] := Array.getElem?_eq_getElem hid
  rw [searchUp, hnode, Option.bind_eq_bind, Option.bind_some]

/-- What a search that comes to an end has done: climbed to the top in vain or found a node. -/
def SearchEnd (t : Tree) (p : NodeId → Bool) (next found : Option NodeId) : Prop :=
  match next with
  | none => found = none
  | some id => (found = none ∧ t.Grounded id) ∨ ∃ a, found = some a ∧ t.Within a id ∧ p a = true

theorem searchEnd_of_searchUp {p : NodeId → Bool} {next found : Option NodeId}
    (h : t.searchUp p next = some found) : t.SearchEnd p next found := by
  -- The search is a least fixed point, so there is nothing else to do induction on.
  refine searchUp.partial_correctness t p (t.SearchEnd p) ?_ next found h
  intro search ih next found h
  cases next with
  | none => exact (Option.some.inj h).symm
  | some id =>
    obtain ⟨n, -, h⟩ := Option.bind_eq_some_iff.mp h
    split at h
    · next hpid => exact .inr ⟨id, (Option.some.inj h).symm, .here, hpid⟩
    · have hrest := ih _ _ h
      cases hp : t.parent? id with
      | none =>
        rw [hp] at hrest
        exact .inl ⟨hrest, .of_no_parent hp⟩
      | some q =>
        rw [hp] at hrest
        rcases hrest with ⟨hfound, hq⟩ | ⟨a, hfound, ha, hpa⟩
        · exact .inl ⟨hfound, .of_parent hp hq⟩
        · exact .inr ⟨a, hfound, .inside hp ha, hpa⟩

theorem found_of_within {p : NodeId → Bool} {a : NodeId} {id : Nat} (h : t.Loose)
    (hid : id < t.size) (ha : t.Within a id) (hpa : p a = true) :
    (t.searchUp p (some id)).isSome = true := by
  induction ha with
  | here => simp [searchUp_some p hid, hpa]
  | @inside q id hp _ ih =>
    have hq : q < t.size := Nat.lt_of_le_of_lt (h.parent_le hp) hid
    rw [searchUp_some p hid, hp]
    split
    · rfl
    · exact ih hq

theorem searchUp_of_climbToEnd (p : NodeId → Bool) {next : Option NodeId} {ids : List NodeId}
    (h : t.climbToEnd next = some ids) (hids : ∀ a ∈ ids, a < t.size) :
    t.searchUp p next = some (ids.find? p) := by
  induction ids generalizing next with
  | nil =>
    cases next with
    | none => exact searchUp_none t p
    | some id =>
      rw [climbToEnd_some] at h
      simp at h
  | cons a ids ih =>
    cases next with
    | none =>
      rw [climbToEnd_none] at h
      simp at h
    | some id =>
      rw [climbToEnd_some] at h
      obtain ⟨rest, hrest, heq⟩ := Option.map_eq_some_iff.mp h
      obtain ⟨rfl, rfl⟩ := List.cons.inj heq
      rw [List.forall_mem_cons] at hids
      rw [searchUp_some p hids.1, ih hrest hids.2, List.find?_cons]
      cases p id <;> rfl

theorem Loose.searchUp_eq (h : t.Loose) (p : NodeId → Bool) {id : Nat} (hid : id < t.size)
    (hground : t.Grounded id) : t.searchUp p (some id) = some ((t.ancestors id).find? p) := by
  refine searchUp_of_climbToEnd p (h.climbToEnd_eq hid hground) fun a ha => ?_
  have hle : a ≤ id := (within_of_mem_ancestors ha).le h
  exact Nat.lt_of_le_of_lt hle hid

/-- A search comes to an end if it starts at a grounded node or finds what it is after, and only
then. -/
theorem Loose.searchUp_isSome_iff (h : t.Loose) (p : NodeId → Bool) {id : Nat}
    (hid : id < t.size) :
    (t.searchUp p (some id)).isSome = true ↔
      t.Grounded id ∨ ∃ a, t.Within a id ∧ p a = true := by
  constructor
  · intro hsome
    obtain ⟨found, hfound⟩ := Option.isSome_iff_exists.mp hsome
    rcases searchEnd_of_searchUp hfound with ⟨-, hground⟩ | ⟨a, -, ha, hpa⟩
    · exact .inl hground
    · exact .inr ⟨a, ha, hpa⟩
  · rintro (hground | ⟨a, ha, hpa⟩)
    · rw [h.searchUp_eq p hid hground]
      rfl
    · exact found_of_within h hid ha hpa

/-! ### Walking -/

theorem walkToEnd_nil (t : Tree) : t.walkToEnd [] = some [] := by
  rw [walkToEnd]

theorem walkToEnd_cons {id : Nat} (hid : id < t.size) (rest : List NodeId) :
    t.walkToEnd (id :: rest) = (t.walkToEnd (t.childrenOf id ++ rest)).map (id :: ·) := by
  obtain ⟨n, hnode⟩ : ∃ n, t.node? id = some n := ⟨_, Array.getElem?_eq_getElem hid⟩
  have hchildren : t.childrenOf id = n.children := by rw [childrenOf, hnode]; rfl
  rw [walkToEnd, hchildren, hnode]
  cases h : t.walkToEnd (n.children ++ rest) <;> simp [h]

theorem walkToEnd_flatMap {f : NodeId → List NodeId} {ids : List NodeId}
    (h : ∀ id ∈ ids, ∀ rest,
      t.walkToEnd (id :: rest) = (t.walkToEnd rest).map (f id ++ ·))
    (rest : List NodeId) :
    t.walkToEnd (ids ++ rest) = (t.walkToEnd rest).map (ids.flatMap f ++ ·) := by
  induction ids with
  | nil => simp
  | cons id ids ih =>
    rw [List.forall_mem_cons] at h
    rw [List.cons_append, h.1, ih h.2, Option.map_map]
    simp [Function.comp_def]

theorem Loose.walkToEnd_levels (h : t.Loose) {depth : Nat} {id : Nat} (hid : id < t.size)
    (hground : t.Grounded id) (hdepth : t.size ≤ id + depth) (rest : List NodeId) :
    t.walkToEnd (id :: rest) = (t.walkToEnd rest).map (t.levels depth id ++ ·) := by
  induction depth generalizing id rest with
  | zero => omega
  | succ depth ih =>
    have hchildren : ∀ c ∈ t.childrenOf id, ∀ rest,
        t.walkToEnd (c :: rest) = (t.walkToEnd rest).map (t.levels depth c ++ ·) := by
      intro c hc
      have hp := h.mem_childrenOf.mp hc
      have hc' : t.Grounded c := .of_parent hp hground
      have hlt := h.parent_lt hc' hp
      exact ih (lt_size_of_parent? hp) hc' (by omega)
    rw [walkToEnd_cons hid, walkToEnd_flatMap hchildren, Option.map_map, levels]
    rfl

theorem Loose.walkToEnd_eq (h : t.Loose) {id : Nat} (hid : id < t.size)
    (hground : t.Grounded id) : t.walkToEnd [id] = some (t.walkFrom id) := by
  have hdepth : t.size ≤ id + t.size := by omega
  rw [h.walkToEnd_levels hid hground hdepth, walkToEnd_nil,
    h.walkFrom_eq_levels hid hground hdepth]
  simp

end CodeAudit.Tree
