import CodeAudit.Proofs.Tree.Walk

namespace CodeAudit

/-- What is left of a node without its span, its marks and its place. -/
def Node.face (n : Node) : NodeKind × Option String := (n.kind, n.givenName)

theorem Node.kind_eq_of_face {a b : Node} (h : a.face = b.face) : a.kind = b.kind :=
  congrArg Prod.fst h

theorem Node.name?_eq_of_face {a b : Node} (h : a.face = b.face) : a.name? = b.name? := by
  have hname : a.givenName = b.givenName := congrArg Prod.snd h
  rw [Node.name?, Node.name?, hname]

namespace Tree

/-- The subtrees of two nodes are the same but for spans and marks. -/
inductive Alike (t₁ t₂ : Tree) : NodeId → NodeId → Prop
  | intro {n₁ n₂ : NodeId}
      (face : (t₁.node? n₁).map Node.face = (t₂.node? n₂).map Node.face)
      (children : List.Forall₂ (Alike t₁ t₂) (t₁.childrenOf n₁) (t₂.childrenOf n₂)) :
      Alike t₁ t₂ n₁ n₂

/-- Two nodes are in the same place below two others: the others themselves, or children with the
same number of nodes that are in the same place. -/
inductive Corresponding (t₁ t₂ : Tree) (d₁ d₂ : NodeId) : NodeId → NodeId → Prop
  | top : Corresponding t₁ t₂ d₁ d₂ d₁ d₂
  | child {p₁ p₂ n₁ n₂ : NodeId} (parents : Corresponding t₁ t₂ d₁ d₂ p₁ p₂) (i : Nat)
      (left : (t₁.childrenOf p₁)[i]? = some n₁) (right : (t₂.childrenOf p₂)[i]? = some n₂) :
      Corresponding t₁ t₂ d₁ d₂ n₁ n₂

variable {t₁ t₂ : Tree} {d₁ d₂ n₁ n₂ m₁ m₂ : NodeId}

/-! ### Faces -/

theorem Alike.exists_node (h : Alike t₁ t₂ n₁ n₂) {a : Node} (ha : t₁.node? n₁ = some a) :
    ∃ b, t₂.node? n₂ = some b ∧ a.face = b.face := by
  obtain ⟨hface, -⟩ := h
  rw [ha, Option.map_some, eq_comm, Option.map_eq_some_iff] at hface
  obtain ⟨b, hb, hface⟩ := hface
  exact ⟨b, hb, hface.symm⟩

theorem Alike.map_eq {α : Type} (h : Alike t₁ t₂ n₁ n₂) (f : Node → α)
    (hf : ∀ a b : Node, a.face = b.face → f a = f b) :
    (t₁.node? n₁).map f = (t₂.node? n₂).map f := by
  cases ha : t₁.node? n₁ with
  | none =>
    obtain ⟨hface, -⟩ := h
    rw [ha, Option.map_none, eq_comm, Option.map_eq_none_iff] at hface
    rw [hface, Option.map_none]
  | some a =>
    obtain ⟨b, hb, hface⟩ := h.exists_node ha
    rw [hb, Option.map_some, Option.map_some, hf a b hface]

theorem Alike.kindIs_eq (h : Alike t₁ t₂ n₁ n₂) (p : NodeKind → Bool) :
    t₁.kindIs p n₁ = t₂.kindIs p n₂ := by
  unfold kindIs
  rw [h.map_eq fun n => p n.kind]
  intro a b hface
  rw [Node.kind_eq_of_face hface]

theorem Alike.isAnonymous_eq (h : Alike t₁ t₂ n₁ n₂) :
    t₁.isAnonymous n₁ = t₂.isAnonymous n₂ := by
  unfold isAnonymous
  rw [h.map_eq Node.isAnonymousDeclaration]
  intro a b hface
  rw [Node.isAnonymousDeclaration, Node.isAnonymousDeclaration, Node.kind_eq_of_face hface,
    Node.name?_eq_of_face hface]

/-! ### One to one -/

namespace Corresponding

theorem symm (h : Corresponding t₁ t₂ d₁ d₂ n₁ n₂) : Corresponding t₂ t₁ d₂ d₁ n₂ n₁ := by
  induction h with
  | top => exact .top
  | child _ i left right ih => exact .child ih i right left

theorem within (h₁ : t₁.Linked) (h : Corresponding t₁ t₂ d₁ d₂ n₁ n₂) : t₁.Within d₁ n₁ := by
  induction h with
  | top => exact .here
  | child _ i left _ ih => exact .inside (h₁.parent?_of_getElem? left) ih

theorem alike (hd : Alike t₁ t₂ d₁ d₂) (h : Corresponding t₁ t₂ d₁ d₂ n₁ n₂) :
    Alike t₁ t₂ n₁ n₂ := by
  induction h with
  | top => exact hd
  | child _ i left right ih =>
    obtain ⟨-, hchildren⟩ := ih
    obtain ⟨hi₁, rfl⟩ := List.getElem?_eq_some_iff.mp left
    obtain ⟨hi₂, rfl⟩ := List.getElem?_eq_some_iff.mp right
    exact hchildren.get hi₁ hi₂

theorem top_notMem (h₁ : t₁.Linked) (h : Corresponding t₁ t₂ d₁ d₂ n₁ n₂) :
    d₁ ∉ t₁.childrenOf n₁ := fun hmem =>
  absurd ((h.within h₁).le h₁.loose) (Nat.not_le.mpr (h₁.lt_of_mem hmem))

theorem right_unique (h₁ : t₁.Linked) (hn : Corresponding t₁ t₂ d₁ d₂ n₁ n₂)
    (hm : Corresponding t₁ t₂ d₁ d₂ n₁ m₂) : n₂ = m₂ := by
  induction hn generalizing m₂ with
  | top =>
    cases hm with
    | top => rfl
    | child hp i left _ => exact absurd (List.mem_of_getElem? left) (hp.top_notMem h₁)
  | @child p₁ p₂ n₁ n₂ hp i left right ih =>
    have hmem : n₁ ∈ t₁.childrenOf p₁ := List.mem_of_getElem? left
    cases hm with
    | top => exact absurd hmem (hp.top_notMem h₁)
    | @child q₁ q₂ _ _ hq j left' right' =>
      -- A node has one parent, and is among its children once.
      have hparent : some p₁ = some q₁ :=
        (h₁.parent?_of_getElem? left).symm.trans (h₁.parent?_of_getElem? left')
      obtain rfl := Option.some.inj hparent
      obtain rfl := ih hq
      have hi : i < (t₁.childrenOf p₁).length := (List.getElem?_eq_some_iff.mp left).1
      obtain rfl : i = j :=
        (List.getElem?_inj hi (h₁.nodup_childrenOf p₁)).mp (left.trans left'.symm)
      exact Option.some.inj (right.symm.trans right')

theorem eq_iff_eq (h₁ : t₁.Linked) (h₂ : t₂.Linked) (hn : Corresponding t₁ t₂ d₁ d₂ n₁ n₂)
    (hm : Corresponding t₁ t₂ d₁ d₂ m₁ m₂) : n₁ = m₁ ↔ n₂ = m₂ := by
  constructor
  · rintro rfl
    exact hn.right_unique h₁ hm
  · rintro rfl
    exact hn.symm.right_unique h₂ hm.symm

/-! ### Walks -/

theorem children (hd : Alike t₁ t₂ d₁ d₂) (h : Corresponding t₁ t₂ d₁ d₂ n₁ n₂) :
    List.Forall₂ (Corresponding t₁ t₂ d₁ d₂) (t₁.childrenOf n₁) (t₂.childrenOf n₂) := by
  obtain ⟨-, hchildren⟩ := h.alike hd
  refine List.forall₂_of_length_eq_of_get hchildren.length_eq fun i hi₁ hi₂ => ?_
  exact .child h i (List.getElem?_eq_getElem hi₁) (List.getElem?_eq_getElem hi₂)

theorem levels (hd : Alike t₁ t₂ d₁ d₂) (depth : Nat) (h : Corresponding t₁ t₂ d₁ d₂ n₁ n₂) :
    List.Forall₂ (Corresponding t₁ t₂ d₁ d₂) (t₁.levels depth n₁) (t₂.levels depth n₂) := by
  induction depth generalizing n₁ n₂ with
  | zero => exact .nil
  | succ depth ih => exact .cons h (List.rel_flatMap (h.children hd) fun _ _ hc => ih hc)

theorem walkFrom (h₁ : t₁.Linked) (h₂ : t₂.Linked) (hd : Alike t₁ t₂ d₁ d₂)
    (hn₁ : n₁ < t₁.size) (hn₂ : n₂ < t₂.size) (h : Corresponding t₁ t₂ d₁ d₂ n₁ n₂) :
    List.Forall₂ (Corresponding t₁ t₂ d₁ d₂) (t₁.walkFrom n₁) (t₂.walkFrom n₂) := by
  rw [walkFrom_eq_levels h₁ hn₁ (by omega : t₁.size ≤ n₁ + (t₁.size + t₂.size)),
    walkFrom_eq_levels h₂ hn₂ (by omega : t₂.size ≤ n₂ + (t₁.size + t₂.size))]
  exact h.levels hd _

end Corresponding

end Tree

end CodeAudit
