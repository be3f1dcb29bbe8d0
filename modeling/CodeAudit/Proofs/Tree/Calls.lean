import CodeAudit.Proofs.Success
import CodeAudit.Proofs.Tree.Made
import CodeAudit.Proofs.Tree.Unbounded
import Mathlib.Data.List.Induction

namespace CodeAudit.Tree

/-- A call on a tree that is being built. -/
inductive Call where
  | add (parent : NodeId) (kind : NodeKind) (name : Option String) (span : Span)
  | mark (id : NodeId) (a : Mark)

def Call.apply? (t : Tree) : Call → Option Tree
  | add parent kind name span => t.add? parent { kind, givenName := name, span }
  | mark id a => t.mark? id a

/-- The tree that calls make of a file node, if all of them go through. -/
def build? (path : Path) (span : Span) (calls : List Call) : Option Tree :=
  calls.foldlM Call.apply? (start path span)

variable {path : Path} {span : Span} {calls : List Call} {t t' : Tree}

theorem build?_nil : build? path span [] = some (start path span) := rfl

theorem build?_snoc (c : Call) :
    build? path span (calls ++ [c]) = (build? path span calls).bind fun t => c.apply? t := by
  rw [build?, List.foldlM_append]
  simp [build?]

/-! ### What one call does -/

theorem Call.size_le {c : Call} (h : c.apply? t = some t') : t.size ≤ t'.size := by
  cases c with
  | add parent kind name span =>
    rw [(of_add? h).2, size_attach]
    omega
  | mark id a => exact Nat.le_of_eq (size_of_mark? h).symm

theorem Call.parent?_of_lt {c : Call} (h : c.apply? t = some t') {id : NodeId} (hid : id < t.size) :
    t'.parent? id = t.parent? id := by
  cases c with
  | add parent kind name span =>
    rw [(of_add? h).2, parent?_attach, if_neg (Nat.ne_of_lt hid)]
  | mark i a => exact parent?_of_mark? h id

theorem Loose.apply? (ht : t.Loose) {c : Call} (h : c.apply? t = some t') : t'.Loose := by
  cases c with
  | add parent kind name span =>
    obtain ⟨hparent, rfl⟩ := of_add? h
    exact ht.attach hparent rfl
  | mark id a => exact ht.of_mark? h

theorem loose_of_build? (h : build? path span calls = some t) : t.Loose := by
  refine Success.foldlM_preserves_some (fun {s c s'} hs hstep => hs.apply? hstep) ?_ h
  exact (linked_singleton path rfl rfl).loose

theorem root_of_build? (h : build? path span calls = some t) :
    0 < t.size ∧ t.parent? rootId = none := by
  have hstart : 0 < (start path span).size ∧ (start path span).parent? rootId = none :=
    ⟨Nat.zero_lt_one, rfl⟩
  refine Success.foldlM_preserves_some
    (P := fun s : Tree => 0 < s.size ∧ s.parent? rootId = none) ?_ hstart h
  intro s c s' hs hstep
  exact ⟨Nat.lt_of_lt_of_le hs.1 (c.size_le hstep), (c.parent?_of_lt hstep hs.1).trans hs.2⟩

theorem rooted_of_build? (h : build? path span calls = some t) : t.Rooted := by
  refine Success.foldlM_preserves_some (fun {s c s'} hs hstep => ?_) (rooted_singleton path _) h
  cases c with
  | add parent kind name span =>
    rw [(of_add? hstep).2]
    exact hs.attach _ _
  | mark id a => exact hs.of_mark? hstep

theorem grounded_rootId (h : build? path span calls = some t) : t.Grounded rootId :=
  .of_no_parent (root_of_build? h).2

/-! ### Numbers that were handed out -/

/-- A call has returned the number of the node that it added. -/
inductive Returned (path : Path) (span : Span) : List Call → NodeId → Prop
  | now {calls : List Call} {t : Tree} (h : build? path span calls = some t) (parent : NodeId)
      (kind : NodeKind) (name : Option String) (s : Span) :
      Returned path span (calls ++ [.add parent kind name s]) t.size
  | before {calls : List Call} {id : NodeId} (h : Returned path span calls id) (c : Call) :
      Returned path span (calls ++ [c]) id

/-- Nodes are added below the file node and below nodes that earlier calls have added. -/
inductive HandedOut (path : Path) (span : Span) : List Call → Prop
  | nil : HandedOut path span []
  | add {calls : List Call} {parent : NodeId} (h : HandedOut path span calls)
      (hparent : parent = rootId ∨ Returned path span calls parent) (kind : NodeKind)
      (name : Option String) (s : Span) :
      HandedOut path span (calls ++ [.add parent kind name s])
  | mark {calls : List Call} (h : HandedOut path span calls) (id : NodeId) (a : Mark) :
      HandedOut path span (calls ++ [.mark id a])

theorem Returned.lt_size {id : NodeId} (hid : Returned path span calls id)
    (h : build? path span calls = some t) : id < t.size := by
  induction hid generalizing t with
  | now hbefore parent kind name s =>
    rw [build?_snoc, hbefore] at h
    rw [(of_add? h).2, size_attach]
    exact Nat.lt_succ_self _
  | before _ c ih =>
    rw [build?_snoc] at h
    obtain ⟨u, hu, h⟩ := Option.bind_eq_some_iff.mp h
    exact Nat.lt_of_lt_of_le (ih hu) (c.size_le h)

theorem made_of_handedOut (hcalls : HandedOut path span calls)
    (h : build? path span calls = some t) : t.Made := by
  induction hcalls generalizing t with
  | nil =>
    rw [build?_nil] at h
    exact Option.some.inj h ▸ .started path span
  | @add calls parent _ hparent kind name s ih =>
    rw [build?_snoc] at h
    obtain ⟨u, hu, h⟩ := Option.bind_eq_some_iff.mp h
    have hlt : parent < u.size := by
      rcases hparent with rfl | hreturned
      · exact (root_of_build? hu).1
      · exact hreturned.lt_size hu
    exact .added (ih hu) hlt h
  | mark _ id a ih =>
    rw [build?_snoc] at h
    obtain ⟨u, hu, h⟩ := Option.bind_eq_some_iff.mp h
    exact .marked (ih hu) h

/-! ### A number ahead of its time -/

/-- A call names the number that it is about to return as the parent. -/
inductive NamesItself (path : Path) (span : Span) : List Call → Prop
  | now {calls : List Call} {t : Tree} (h : build? path span calls = some t) (kind : NodeKind)
      (name : Option String) (s : Span) :
      NamesItself path span (calls ++ [.add t.size kind name s])
  | before {calls : List Call} (h : NamesItself path span calls) (c : Call) :
      NamesItself path span (calls ++ [c])

/-- A node is its own parent if a call has named the number it was about to return, and only
then. -/
theorem exists_own_parent_iff (h : build? path span calls = some t) :
    (∃ id, t.parent? id = some id) ↔ NamesItself path span calls := by
  constructor
  · rintro ⟨id, hid⟩
    -- From the last call backwards: it has added the node, or the node was there before.
    induction calls using List.reverseRecOn generalizing t with
    | nil =>
      rw [build?_nil] at h
      obtain rfl := Option.some.inj h
      have hlinked : (start path span).Linked := linked_singleton path rfl rfl
      exact absurd (hlinked.parent_lt hid) (Nat.lt_irrefl _)
    | append_singleton calls c ih =>
      rw [build?_snoc] at h
      obtain ⟨u, hu, h⟩ := Option.bind_eq_some_iff.mp h
      by_cases hlt : id < u.size
      · exact .before (ih hu (c.parent?_of_lt h hlt ▸ hid)) c
      · -- The node is the one that the last call has added.
        cases c with
        | add parent kind name s =>
          have hlast := lt_size_of_parent? hid
          rw [(of_add? h).2, size_attach] at hlast
          have hnew : id = u.size :=
            Nat.le_antisymm (Nat.le_of_lt_succ hlast) (Nat.not_lt.mp hlt)
          rw [(of_add? h).2, parent?_attach, if_pos hnew] at hid
          obtain rfl := (Option.some.inj hid).trans hnew
          exact .now hu kind name s
        | mark i a => exact absurd (size_of_mark? h ▸ lt_size_of_parent? hid) hlt
  · intro hnames
    induction hnames generalizing t with
    | @now _ u hu kind name s =>
      rw [build?_snoc, hu] at h
      refine ⟨u.size, ?_⟩
      rw [(of_add? h).2, parent?_attach, if_pos rfl]
    | before _ c ih =>
      rw [build?_snoc] at h
      obtain ⟨u, hu, h⟩ := Option.bind_eq_some_iff.mp h
      obtain ⟨id, hid⟩ := ih hu
      exact ⟨id, (c.parent?_of_lt h (lt_size_of_parent? hid)).trans hid⟩

/-- Every node is grounded if no call has named the number it was about to return, and only then. -/
theorem forall_grounded_iff (h : build? path span calls = some t) :
    (∀ id : Nat, id < t.size → t.Grounded id) ↔ ¬ NamesItself path span calls := by
  rw [← exists_own_parent_iff h]
  constructor
  · rintro hground ⟨id, hown⟩
    exact hground id (lt_size_of_parent? hown) id .here hown
  · intro hnone id _ a _ hown
    exact hnone ⟨a, hown⟩

end CodeAudit.Tree
