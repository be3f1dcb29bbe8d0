import CodeAudit.Metrics
import CodeAudit.Proofs.Tree.Calls

namespace CodeAudit.Tree

/-- Trees of nested descriptions, and trees that calls have built, whatever numbers they named. -/
inductive Obtained : Tree → Prop
  | nested (path : Path) (o : Outline) : Obtained (ofOutline path o)
  | built {path : Path} {span : Span} {calls : List Call} {t : Tree}
      (h : build? path span calls = some t) : Obtained t

def census (t : Tree) (kinds : List NodeKind) : Nat :=
  t.nodes.toList.countP fun n => kinds.contains n.kind

/-- Whether a climb from a node leads to the file node. -/
def isMoored (t : Tree) (id : NodeId) : Bool := (t.ancestors id).contains rootId

/-- The number of nodes of some kinds from which a climb leads to the file node. -/
def mooredCensus (t : Tree) (kinds : List NodeKind) : Nat :=
  (List.range t.size).countP fun id => t.kindIs kinds.contains id && t.isMoored id

variable {t : Tree}

/-! ### Nodes of some kinds -/

theorem kindIs_eq_any (p : NodeKind → Bool) (id : NodeId) :
    t.kindIs p id = (t.node? id).any fun n => p n.kind := by
  rw [kindIs]
  cases t.node? id <;> rfl

theorem kindIs_flatten (groups : List (List NodeKind)) (id : NodeId) :
    t.kindIs groups.flatten.contains id = true ↔
      ∃ kinds ∈ groups, t.kindIs kinds.contains id = true := by
  simp only [kindIs_eq_any]
  cases t.node? id <;> simp

theorem census_eq_countP_range (t : Tree) (kinds : List NodeKind) :
    t.census kinds = (List.range t.size).countP (t.kindIs kinds.contains) := by
  have hnodes : t.nodes.toList.map some = (List.range t.size).map t.node? := by
    refine List.ext_getElem (by simp [size]) fun i hi _ => ?_
    simp at hi
    simp [node?, hi]
  have hmap : t.nodes.toList.countP (fun n => kinds.contains n.kind) =
      (t.nodes.toList.map some).countP fun n => n.any fun n => kinds.contains n.kind := by
    rw [List.countP_map]
    rfl
  rw [census, hmap, hnodes, List.countP_map]
  refine List.countP_congr fun id _ => ?_
  rw [kindIs_eq_any]
  rfl

theorem census_eq_moored_add (t : Tree) (kinds : List NodeKind) :
    t.census kinds = t.mooredCensus kinds +
      (List.range t.size).countP fun id => t.kindIs kinds.contains id && !t.isMoored id := by
  rw [census_eq_countP_range, List.countP_eq_countP_filter_add _ _ t.isMoored, List.countP_filter,
    List.countP_filter, mooredCensus]

theorem mooredCensus_le (t : Tree) (kinds : List NodeKind) :
    t.mooredCensus kinds ≤ t.census kinds := by
  rw [census_eq_moored_add]
  exact Nat.le_add_right _ _

/-! ### Ways to the file node -/

namespace Obtained

variable (h : t.Obtained)

include h

theorem loose : t.Loose := by
  cases h with
  | nested path o => exact (linked_ofOutline path o).loose
  | built h => exact loose_of_build? h

theorem rooted : t.Rooted := by
  cases h with
  | nested path o => exact (Made.nested path o).rooted
  | built h => exact rooted_of_build? h

theorem grounded_root : t.Grounded rootId := by
  cases h with
  | nested path o => exact (linked_ofOutline path o).grounded rootId
  | built h => exact grounded_rootId h

theorem within_root_iff {id : Nat} (hid : id < t.size) :
    t.Within rootId id ↔ t.Grounded id := by
  refine ⟨h.grounded_root.of_inside, fun hground => ?_⟩
  induction id using Nat.strongRecOn with
  | ind id ih =>
    rcases Nat.eq_zero_or_pos id with rfl | hpos
    · exact .here
    · obtain ⟨p, hp⟩ := Option.isSome_iff_exists.mp (h.rooted.isSome_parent? hpos hid)
      have hlt := h.loose.parent_lt hground hp
      exact .inside hp (ih p hlt (Nat.lt_trans hlt hid) (hground.parent hp))

theorem isMoored_iff {id : Nat} (hid : id < t.size) :
    t.isMoored id = true ↔ t.Grounded id := by
  rw [isMoored, List.contains_iff_mem]
  constructor
  · intro hroot
    exact h.grounded_root.of_inside (within_of_mem_ancestors hroot)
  · intro hground
    exact (h.loose.mem_ancestors_iff hid hground).mpr ((h.within_root_iff hid).mpr hground)

theorem mem_walk_iff {id : Nat} : id ∈ t.walk ↔ id < t.size ∧ t.isMoored id = true := by
  have hroot : rootId < t.size := h.rooted.size_pos
  rw [walk, h.loose.mem_walkFrom_iff hroot h.grounded_root]
  constructor
  · intro hid
    have hlt := hid.lt_size hroot
    exact ⟨hlt, (h.isMoored_iff hlt).mpr ((h.within_root_iff hlt).mp hid)⟩
  · rintro ⟨hid, hmoored⟩
    exact (h.within_root_iff hid).mpr ((h.isMoored_iff hid).mp hmoored)

/-- No node of some kinds is missed exactly where none hangs below a node that is its own parent. -/
theorem mooredCensus_eq_iff (kinds : List NodeKind) :
    t.mooredCensus kinds = t.census kinds ↔
      ∀ id < t.size, t.kindIs kinds.contains id = true → t.Grounded id := by
  rw [census_eq_moored_add, Nat.left_eq_add, List.countP_eq_zero]
  simp only [List.mem_range, Bool.and_eq_true, Bool.not_eq_true', not_and, Bool.not_eq_false]
  exact forall₃_congr fun id hid _ => h.isMoored_iff hid

theorem nodup_walk : t.walk.Nodup := by
  have hroot : rootId < t.size := h.rooted.size_pos
  rw [walk, h.loose.walkFrom_eq_levels hroot h.grounded_root (Nat.le_add_left _ _)]
  exact h.loose.nodup_levels t.size h.grounded_root

theorem walk_perm : t.walk.Perm ((List.range t.size).filter t.isMoored) := by
  refine (List.perm_ext_iff_of_nodup h.nodup_walk (List.nodup_range.filter _)).mpr fun id => ?_
  rw [h.mem_walk_iff, List.mem_filter, List.mem_range]

theorem countKinds_eq (kinds : List NodeKind) :
    Collector.countKinds t kinds = t.mooredCensus kinds := by
  have hkind : (fun id => (t.node? id).any fun n => kinds.contains n.kind) =
      t.kindIs kinds.contains := funext fun id => (kindIs_eq_any kinds.contains id).symm
  rw [Collector.countKinds, hkind, h.walk_perm.countP_eq, List.countP_filter, mooredCensus]

end Obtained

end CodeAudit.Tree
