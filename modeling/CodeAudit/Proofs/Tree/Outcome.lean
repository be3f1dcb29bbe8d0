import CodeAudit.Proofs.Success
import CodeAudit.Proofs.Tree.Unbounded
import CodeAudit.Tree.Signature
import Mathlib.Data.Option.Basic

namespace CodeAudit.Tree

variable {t : Tree}

/-- The node a climb or a walk starts at, if it is there. -/
def present (t : Tree) (id : NodeId) : Option NodeId := (t.node? id).map fun _ => id

/-- The nearest declaration around a node, looked for to the end. -/
def enclosingToEnd (t : Tree) (id : NodeId) : Option (Option NodeId) :=
  t.searchUp (t.kindIs NodeKind.isDeclaration) (t.present id)

/-- The declaration that directly holds a node, looked for to the end. -/
def ownerToEnd (t : Tree) (id : NodeId) : Option (Option NodeId) :=
  match t.parent? id with
  | none => some none
  | some p => t.enclosingToEnd p

/-- Whether a node is an unnamed declaration with the given owner. The owner is looked for only
where the rest holds. -/
def isAnonymousOf (t : Tree) (holder : Option NodeId) (id : NodeId) : Option Bool :=
  if (id != holder.getD rootId || holder.isNone) && t.isAnonymous id then
    (t.ownerToEnd id).map (· == holder)
  else some false

/-- Counts the nodes of a walk that pass a test until it comes by a given one; starts from zero
again if it never does. -/
def countUntil (t : Tree) (p : NodeId → Option Bool) (goal : NodeId) (stack : List NodeId)
    (count : Nat) : Option Nat :=
  match stack with
  | [] => some 0
  | id :: rest => do
    let n ← t.node? id
    if ← p id then
      if id == goal then some count else t |>.countUntil p goal (n.children ++ rest) (count + 1)
    else t |>.countUntil p goal (n.children ++ rest) count
partial_fixpoint

def anonymousOrdinalToEnd (t : Tree) (id : NodeId) : Option Nat := do
  let holder ← t.ownerToEnd id
  t.countUntil (t.isAnonymousOf holder) id (t.present (holder.getD rootId)).toList 0

/-- What a declaration contributes to a signature. The children of a function must all be there. -/
def segmentToEnd (t : Tree) (id : NodeId) : Option String := do
  let n ← t.node? id
  match n.name? with
  | none => return "<anonymous#" ++ toString (← t.anonymousOrdinalToEnd id) ++ ">"
  | some name =>
    if n.kind = .function then do
      guard (n.children.all fun c => (t.node? c).isSome)
      return name ++ "(" ++ ", ".intercalate (t.parameterNames n) ++ ")"
    else return name

/-- The signature of the declaration around a node, read to the end. -/
def signatureToEnd (t : Tree) (id : NodeId) : Option String := do
  let ids ← t.climbToEnd (t.present id)
  guard (ids.all fun a => (t.node? a).isSome)
  match (ids.filter (t.kindIs NodeKind.isDeclaration)).reverse with
  | [] => return t.fileName
  | declarations => return ".".intercalate (← declarations.mapM t.segmentToEnd)

/-! ### Counting along a walk -/

theorem present_eq {id : Nat} (hid : id < t.size) : t.present id = some id := by
  have hnode : t.node? id = some t.nodes[id] := Array.getElem?_eq_getElem hid
  rw [present, hnode]
  rfl

theorem isSome_node? {id : Nat} (hid : id < t.size) : (t.node? id).isSome = true := by
  have hnode : t.node? id = some t.nodes[id] := Array.getElem?_eq_getElem hid
  rw [hnode]
  rfl

theorem countUntil_of_walkToEnd {p : NodeId → Option Bool} {q : NodeId → Bool} {goal : NodeId}
    {ids stack : List NodeId} (h : t.walkToEnd stack = some ids)
    (hp : ∀ id ∈ ids, p id = some (q id)) (count : Nat) :
    t.countUntil p goal stack count =
      some ((((ids.filter q).findIdx? (· == goal)).map (count + ·)).getD 0) := by
  -- The list of the walk is its own measure: the count takes as many steps.
  induction ids generalizing stack count with
  | nil =>
    cases stack with
    | nil => rw [countUntil]; rfl
    | cons id rest =>
      rw [walkToEnd] at h
      obtain ⟨n, -, h⟩ := Option.bind_eq_some_iff.mp h
      simp [Option.bind_eq_some_iff] at h
  | cons a ids ih =>
    cases stack with
    | nil => simp [walkToEnd_nil] at h
    | cons id rest =>
      rw [walkToEnd] at h
      obtain ⟨n, hnode, h⟩ := Option.bind_eq_some_iff.mp h
      obtain ⟨ids', hrest, heq⟩ := Option.bind_eq_some_iff.mp h
      obtain ⟨rfl, rfl⟩ := List.cons.inj (Option.some.inj heq)
      rw [List.forall_mem_cons] at hp
      have hgo := ih hrest hp.2
      rw [countUntil, hnode]
      simp only [Option.bind_eq_bind, Option.bind_some, hp.1]
      cases hq : q id with
      | false => simp [hq, hgo]
      | true =>
        cases hgoal : id == goal with
        | true => simp [hq, hgoal, List.findIdx?_cons]
        | false =>
          simp [hq, hgoal, hgo, List.findIdx?_cons, Function.comp_def, Nat.add_assoc,
            Nat.add_comm 1]

theorem exists_parent_of_owner {id holder : NodeId} (howner : t.owner id = some holder) :
    ∃ p, t.parent? id = some p ∧ t.Within holder p := by
  obtain ⟨p, hp, hfind⟩ := Option.bind_eq_some_iff.mp howner
  have hmem : holder ∈ t.ancestors p := List.mem_of_find?_eq_some hfind
  exact ⟨p, hp, within_of_mem_ancestors hmem⟩

theorem within_of_owner {id holder : NodeId} (howner : t.owner id = some holder) :
    t.Within holder id := by
  obtain ⟨p, hp, hwithin⟩ := exists_parent_of_owner howner
  exact .inside hp hwithin

/-! ### Grounded nodes -/

namespace Loose

variable (h : t.Loose) {id : Nat}

include h

theorem enclosingToEnd_eq (hid : id < t.size) (hground : t.Grounded id) :
    t.enclosingToEnd id = some (t.enclosingDeclaration id) := by
  rw [enclosingToEnd, present_eq hid, h.searchUp_eq _ hid hground]
  rfl

theorem ownerToEnd_eq (hid : id < t.size) (hground : t.Grounded id) :
    t.ownerToEnd id = some (t.owner id) := by
  cases hp : t.parent? id with
  | none => simp [ownerToEnd, owner, hp]
  | some p =>
    have hlt := h.parent_lt hground hp
    have henclosing := h.enclosingToEnd_eq (Nat.lt_trans hlt hid) (hground.parent hp)
    rw [ownerToEnd, owner, hp]
    simp [henclosing]

theorem anonymousOrdinalToEnd_eq (hroot : t.Grounded rootId) (hid : id < t.size)
    (hground : t.Grounded id) : t.anonymousOrdinalToEnd id = some (t.anonymousOrdinal id) := by
  obtain ⟨hstart, hstart_ground⟩ :
      (t.owner id).getD rootId < t.size ∧ t.Grounded ((t.owner id).getD rootId) := by
    cases howner : t.owner id with
    | none => exact ⟨Nat.zero_lt_of_lt hid, hroot⟩
    | some holder =>
      have hwithin := within_of_owner howner
      exact ⟨Nat.lt_of_le_of_lt (hwithin.le h) hid, hground.of_within hwithin⟩
  -- On the walk from the owner every node is grounded, so every test has an outcome.
  have hanonymous : ∀ n ∈ t.walkFrom ((t.owner id).getD rootId),
      t.isAnonymousOf (t.owner id) n =
        some ((n != (t.owner id).getD rootId || (t.owner id).isNone) && t.isAnonymous n &&
          t.owner n == t.owner id) := by
    intro n hn
    have hwithin := (h.mem_walkFrom_iff hstart hstart_ground).mp hn
    have howner := h.ownerToEnd_eq (hwithin.lt_size hstart) (hstart_ground.of_inside hwithin)
    rw [isAnonymousOf, howner]
    split <;> simp_all
  rw [anonymousOrdinalToEnd, h.ownerToEnd_eq hid hground, Option.bind_eq_bind, Option.bind_some,
    present_eq hstart, Option.toList_some,
    countUntil_of_walkToEnd (h.walkToEnd_eq hstart hstart_ground) hanonymous]
  simp [anonymousOrdinal, anonymousOf]

theorem segmentToEnd_eq (hroot : t.Grounded rootId) (hid : id < t.size) (hground : t.Grounded id) :
    t.segmentToEnd id = some (t.segment id) := by
  obtain ⟨n, hnode⟩ := Option.isSome_iff_exists.mp (isSome_node? hid)
  rw [segmentToEnd, segment, hnode, Option.bind_eq_bind, Option.bind_some]
  cases hname : n.name? with
  | none => simp [hname, h.anonymousOrdinalToEnd_eq hroot hid hground]
  | some name =>
    have hchildren : (n.children.all fun c => (t.node? c).isSome) = true := by
      rw [List.all_eq_true]
      intro c hc
      have hmem : c ∈ t.childrenOf id := by rw [childrenOf, hnode]; exact hc
      exact isSome_node? (lt_size_of_parent? (h.mem_childrenOf.mp hmem))
    by_cases hkind : n.kind = .function
    · simp [hname, hkind, hchildren]
    · simp [hname, hkind]

theorem signatureToEnd_eq (hroot : t.Grounded rootId) (hid : id < t.size)
    (hground : t.Grounded id) : t.signatureToEnd id = some (t.signature id) := by
  -- All around a grounded node is grounded.
  have hwithin : ∀ a ∈ t.ancestors id, a < t.size ∧ t.Grounded a := fun a ha =>
    have hwithin := within_of_mem_ancestors ha
    ⟨Nat.lt_of_le_of_lt (hwithin.le h) hid, hground.of_within hwithin⟩
  have hall : ((t.ancestors id).all fun a => (t.node? a).isSome) = true :=
    List.all_eq_true.mpr fun a ha => isSome_node? (hwithin a ha).1
  have hsegments : (t.declarationsAround id).mapM t.segmentToEnd =
      some ((t.declarationsAround id).map t.segment) := by
    apply Success.mapM_eq_some_of_forall₂
    rw [List.forall₂_map_right_iff, List.forall₂_same]
    intro a ha
    have hmem := (List.mem_filter.mp (List.mem_reverse.mp ha)).1
    exact h.segmentToEnd_eq hroot (hwithin a hmem).1 (hwithin a hmem).2
  rw [signatureToEnd, present_eq hid, h.climbToEnd_eq hid hground, signature]
  rw [declarationsAround] at hsegments ⊢
  simp only [Option.bind_eq_bind, Option.bind_some, hall, guard_true]
  cases hds : ((t.ancestors id).filter (t.kindIs NodeKind.isDeclaration)).reverse with
  | nil => rfl
  | cons d ds =>
    rw [hds] at hsegments
    simp [hsegments]

end Loose

/-- Where a climb does not come to an end, there is no signature. -/
theorem signatureToEnd_eq_none {id : Nat} (hid : id < t.size) (h : ¬ t.Grounded id) :
    t.signatureToEnd id = none := by
  rw [signatureToEnd, present_eq hid, climbToEnd_eq_none h]
  rfl

end CodeAudit.Tree
