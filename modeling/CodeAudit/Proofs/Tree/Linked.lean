import CodeAudit.Tree.Outline

namespace CodeAudit.Tree

variable {t : Tree}

structure Linked (t : Tree) : Prop where
  parent_lt : ∀ {id p : Nat}, t.parent? id = some p → p < id
  mem_childrenOf : ∀ {p c : NodeId}, c ∈ t.childrenOf p ↔ t.parent? c = some p
  ascending : ∀ p, (t.childrenOf p).Pairwise (· < ·)

/-- Links that are in order, except that a node may name itself as its parent. -/
structure Loose (t : Tree) : Prop where
  parent_le : ∀ {id p : Nat}, t.parent? id = some p → p ≤ id
  mem_childrenOf : ∀ {p c : NodeId}, c ∈ t.childrenOf p ↔ t.parent? c = some p
  ascending : ∀ p, (t.childrenOf p).Pairwise (· < ·)

theorem Linked.loose (h : t.Linked) : t.Loose where
  parent_le hp := Nat.le_of_lt (h.parent_lt hp)
  mem_childrenOf := h.mem_childrenOf
  ascending := h.ascending

theorem lt_size_of_parent? {id p : NodeId} (h : t.parent? id = some p) : id < t.size := by
  obtain ⟨n, hn, -⟩ := Option.bind_eq_some_iff.mp h
  exact (Array.getElem?_eq_some_iff.mp hn).1

theorem childrenOf_of_size_le {id : NodeId} (h : t.size ≤ id) : t.childrenOf id = [] := by
  have hnone : t.node? id = none := Array.getElem?_eq_none h
  rw [childrenOf, hnone]
  rfl

namespace Linked

variable (h : t.Linked) {p c : Nat}

include h

theorem lt_of_mem (hc : c ∈ t.childrenOf p) : p < c :=
  h.parent_lt (h.mem_childrenOf.mp hc)

theorem lt_size_of_mem (hc : c ∈ t.childrenOf p) : c < t.size :=
  lt_size_of_parent? (h.mem_childrenOf.mp hc)

theorem parent?_of_getElem? {i : Nat} (hc : (t.childrenOf p)[i]? = some c) :
    t.parent? c = some p :=
  h.mem_childrenOf.mp (List.mem_of_getElem? hc)

theorem nodup_childrenOf (p : NodeId) : (t.childrenOf p).Nodup :=
  (h.ascending p).imp Nat.ne_of_lt

end Linked

/-! ### One more node -/

section Attach

variable {parent : NodeId} {n : Node}

theorem size_attach (t : Tree) (parent : NodeId) (n : Node) :
    (t.attach parent n).size = t.size + 1 := by
  simp [attach, modify, size]

theorem node?_attach (id : NodeId) :
    (t.attach parent n).node? id =
      if parent = id then
        (if id = t.size then some { n with parent := some parent } else t.node? id).map
          fun p => { p with children := p.children ++ [t.size] }
      else if id = t.size then some { n with parent := some parent } else t.node? id := by
  simp only [attach, modify, node?, Array.getElem?_modify, Array.getElem?_push, size]
  rfl

theorem parent?_attach (id : NodeId) :
    (t.attach parent n).parent? id = if id = t.size then some parent else t.parent? id := by
  unfold parent?
  rw [node?_attach]
  by_cases hid : id = t.size
  · by_cases hp : parent = id <;> simp [hid, hid ▸ hp]
  · by_cases hp : parent = id
    · simp only [hp, hid, if_true, if_false]
      cases t.node? id <;> rfl
    · simp [hp, hid]

/-- The new node is the last child of the one it was attached to; no other node's children change. -/
theorem childrenOf_attach (hparent : parent ≤ t.size) (hn : n.children = []) (id : NodeId) :
    (t.attach parent n).childrenOf id =
      if id = parent then t.childrenOf id ++ [t.size] else t.childrenOf id := by
  by_cases hid : id = t.size
  · rw [childrenOf_of_size_le (Nat.le_of_eq hid.symm), childrenOf, node?_attach]
    by_cases hp : parent = id <;> simp [hid, hid ▸ hp, hn, eq_comm]
  · unfold childrenOf
    rw [node?_attach]
    by_cases hp : parent = id
    · have hlt : id < t.size := Nat.lt_of_le_of_ne (hp ▸ hparent) hid
      obtain ⟨p, hsome⟩ : ∃ p, t.node? id = some p := ⟨_, Array.getElem?_eq_getElem hlt⟩
      simp [hp, hid, hsome]
    · simp [hp, hid, Ne.symm hp]

theorem Loose.attach (hparent : parent ≤ t.size) (h : t.Loose) (hn : n.children = []) :
    (t.attach parent n).Loose where
  parent_le := by
    intro id p hp
    rw [parent?_attach] at hp
    split at hp
    next hid =>
      obtain rfl := Option.some.inj hp
      exact hid ▸ hparent
    next => exact h.parent_le hp
  mem_childrenOf := by
    intro p c
    rw [childrenOf_attach hparent hn, parent?_attach]
    -- No child of before has the new number.
    have hold : c ∈ t.childrenOf p → c ≠ t.size := fun hc =>
      Nat.ne_of_lt (lt_size_of_parent? (h.mem_childrenOf.mp hc))
    have hparents := h.mem_childrenOf (p := p) (c := c)
    by_cases hp : p = parent <;> by_cases hc : c = t.size <;> simp_all [eq_comm]
  ascending := by
    intro p
    rw [childrenOf_attach hparent hn]
    split
    next =>
      rw [List.pairwise_append]
      refine ⟨h.ascending p, by simp, fun c hc c' hc' => ?_⟩
      rw [List.mem_singleton.mp hc']
      exact lt_size_of_parent? (h.mem_childrenOf.mp hc)
    next => exact h.ascending p

theorem Linked.attach (hparent : parent < t.size) (h : t.Linked) (hn : n.children = []) :
    (t.attach parent n).Linked where
  parent_lt := by
    intro id p hp
    rw [parent?_attach] at hp
    split at hp
    next hid =>
      obtain rfl := Option.some.inj hp
      exact hid ▸ hparent
    next => exact h.parent_lt hp
  mem_childrenOf := (h.loose.attach (Nat.le_of_lt hparent) hn).mem_childrenOf
  ascending := (h.loose.attach (Nat.le_of_lt hparent) hn).ascending

end Attach

/-! ### Trees of outlines -/

/-- Attaching a node without children below one that is there keeps the property. -/
def KeptByAttach (P : Tree → Prop) : Prop :=
  ∀ {t : Tree} {parent : NodeId} {n : Node}, P t → parent < t.size → n.children = [] →
    P (t.attach parent n)

mutual

theorem KeptByAttach.graft {P : Tree → Prop} (hP : KeptByAttach P) {t : Tree} {parent : NodeId}
    (h : P t) (hparent : parent < t.size) (o : Outline) :
    P (t.graft parent o) ∧ t.size ≤ (t.graft parent o).size := by
  match o with
  | .node kind name marks span children =>
    have hnode := hP (n := { kind, givenName := name, marks, span }) h hparent rfl
    have hsize := size_attach t parent { kind, givenName := name, marks, span }
    obtain ⟨hkept, hle⟩ := hP.graftAll hnode (by omega : t.size < _) children
    rw [Tree.graft]
    exact ⟨hkept, by omega⟩

theorem KeptByAttach.graftAll {P : Tree → Prop} (hP : KeptByAttach P) {t : Tree}
    {parent : NodeId} (h : P t) (hparent : parent < t.size) (os : List Outline) :
    P (t.graftAll parent os) ∧ t.size ≤ (t.graftAll parent os).size := by
  match os with
  | [] => rw [Tree.graftAll]; exact ⟨h, Nat.le_refl _⟩
  | o :: rest =>
    obtain ⟨hkept, hle⟩ := hP.graft h hparent o
    obtain ⟨hkept', hle'⟩ := hP.graftAll hkept (Nat.lt_of_lt_of_le hparent hle) rest
    rw [Tree.graftAll]
    exact ⟨hkept', Nat.le_trans hle hle'⟩

end

theorem linked_singleton (path : Path) {n : Node} (hparent : n.parent = none)
    (hchildren : n.children = []) : Linked { path, nodes := #[n] } := by
  have hp : ∀ id, parent? { path, nodes := #[n] } id = none := by
    intro id
    cases id with
    | zero => exact hparent
    | succ id => rfl
  have hc : ∀ id, childrenOf { path, nodes := #[n] } id = [] := by
    intro id
    cases id with
    | zero => exact hchildren
    | succ id => rfl
  exact ⟨fun h => by simp [hp] at h, by simp [hp, hc], by simp [hc]⟩

theorem keptByAttach_linked : KeptByAttach Linked := fun h hparent hn => h.attach hparent hn

theorem linked_ofOutline (path : Path) (o : Outline) : (ofOutline path o).Linked := by
  match o with
  | .node kind name marks span children =>
    have hstart := linked_singleton path (n := { kind := .file, givenName := name, marks, span })
      rfl rfl
    exact (keptByAttach_linked.graftAll hstart Nat.zero_lt_one children).1

end CodeAudit.Tree
