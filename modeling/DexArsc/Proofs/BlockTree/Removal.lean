/-
The removal of a node with all that it owns. The nodes that it does not own stay as they are, except
that its parent loses a child.
-/

import DexArsc.Proofs.BlockTree.Linked

namespace DexArsc.BlockTree

open Relation (TransGen ReflTransGen)

variable {tree final third : BlockTree}

/-- The tree without one node. -/
def erase (tree : BlockTree) (id : NodeId) : BlockTree :=
  { tree with nodes := tree.nodes.setIfInBounds id.index none }

theorem node?_erase (tree : BlockTree) (id other : NodeId) :
    (tree.erase id).node? other = if other = id then none else tree.node? other := by
  unfold erase node?
  rw [Array.getElem?_setIfInBounds]
  by_cases same : other = id
  · subst same
    rw [if_pos rfl, if_pos rfl]
    split <;> rfl
  · rw [if_neg same, if_neg fun equal => same (NodeId.eq_iff.2 equal.symm)]

/-- What a node owns, directly or through other nodes. -/
inductive Owns (tree : BlockTree) (top : NodeId) : NodeId → Prop
  | top : Owns tree top top
  | child {parent id : NodeId} {node : Node} (above : Owns tree top parent)
      (found : tree.node? parent = some node) (inside : id ∈ node.children) : Owns tree top id

namespace Owns

theorem of_mem_children {top id child : NodeId} (owns : tree.Owns top id)
    (inside : child ∈ tree.children id) : tree.Owns top child := by
  unfold children at inside
  split at inside
  · rename_i node found
    exact .child owns found inside
  · cases inside

theorem trans {first second third : NodeId} (above : tree.Owns first second)
    (below : tree.Owns second third) : tree.Owns first third := by
  induction below with
  | top => exact above
  | child _ found inside ih => exact .child ih found inside

end Owns

/-- A node owns what it stands above. -/
theorem Forest.owns_iff (forest : tree.Forest) (top id : NodeId) :
    tree.Owns top id ↔ ReflTransGen tree.Above top id := by
  constructor
  · intro owns
    induction owns with
    | top => exact .refl
    | @child parent id node _ found inside ih =>
        exact ih.tail (forest.down parent node.shape id (shape?_of_some found) inside)
  · intro way
    induction way with
    | refl => exact .top
    | @tail parent id _ here ih => exact ih.of_mem_children ((forest.mem_children_iff parent id).2 here)

namespace Owns

/-- A node is owned by the node itself and by what owns its parent. -/
theorem up (forest : tree.Forest) {top id : NodeId} (owns : tree.Owns top id) :
    id = top ∨ ∃ parent, tree.parent? id = some parent ∧ tree.Owns top parent := by
  cases owns with
  | top => exact .inl rfl
  | @child parent _ node above found inside =>
      exact .inr ⟨parent, forest.down parent node.shape id (shape?_of_some found) inside, above⟩

/-- A node that a live node owns is live. -/
theorem live (forest : tree.Forest) {top id : NodeId} {shape : Shape} (found : tree.shape? top = some shape)
    (owns : tree.Owns top id) : ∃ below, tree.shape? id = some below := by
  rcases owns with _ | ⟨_, here, inside⟩
  · exact ⟨shape, found⟩
  · obtain ⟨below, live, _⟩ := forest.live (shape?_of_some here) inside
    exact ⟨below, live⟩

theorem index_le (linked : tree.Linked) {top id : NodeId} (owns : tree.Owns top id) :
    top.index ≤ id.index :=
  linked.index_le ((linked.owns_iff top id).1 owns)

/-- A child does not own its parent. -/
theorem not_parent (forest : tree.Forest) {parent child : NodeId} (above : tree.Above parent child) :
    ¬tree.Owns child parent := fun owns =>
  forest.acyclic parent (.trans_left (.single above) ((forest.owns_iff child parent).1 owns))

/-- Different children of one node own different nodes. -/
theorem apart (forest : tree.Forest) {parent first second id : NodeId}
    (above : tree.parent? first = some parent) (above' : tree.parent? second = some parent)
    (different : first ≠ second) (owns : tree.Owns first id) : ¬tree.Owns second id := by
  induction owns with
  | top =>
      intro owns'
      rcases owns'.up forest with same | ⟨up, here, owns'⟩
      · exact different same
      · cases here.symm.trans above
        exact owns'.not_parent forest above'
  | @child between id node owns found inside ih =>
      have here := forest.down between node.shape id (shape?_of_some found) inside
      intro owns'
      rcases owns'.up forest with same | ⟨up, there, owns'⟩
      · subst same
        cases here.symm.trans above'
        exact owns.not_parent forest above
      · cases here.symm.trans there
        exact ih owns'

end Owns

/-- Some nodes are gone, and the others are as they were. -/
structure Freed (lost : NodeId → Prop) (tree final : BlockTree) : Prop where
  size : final.nodes.size = tree.nodes.size
  gone : ∀ id, lost id → final.node? id = none
  kept : ∀ id, ¬lost id → final.node? id = tree.node? id

namespace Freed

variable {first second : NodeId → Prop}

theorem trans (before : Freed first tree final) (behind : Freed second final third) :
    Freed (fun id => first id ∨ second id) tree third where
  size := behind.size.trans before.size
  gone id lost := by
    by_cases now : second id
    · exact behind.gone id now
    · rw [behind.kept id now]
      exact before.gone id (lost.resolve_right now)
  kept id left := by
    rw [behind.kept id fun here => left (.inr here), before.kept id fun here => left (.inl here)]

theorem congr (freed : Freed first tree final) (same : ∀ id, first id ↔ second id) : Freed second tree final where
  size := freed.size
  gone id here := freed.gone id ((same id).2 here)
  kept id left := freed.kept id fun here => left ((same id).1 here)

/-- One node that is removed. -/
theorem one (id : NodeId) (tree : BlockTree) : Freed (· = id) tree (tree.erase id) where
  size := Array.size_setIfInBounds ..
  gone other same := by rw [node?_erase, if_pos same]
  kept other different := by rw [node?_erase, if_neg different]

/-- The trees that are left without the same nodes are the same. -/
theorem unique (one : Freed first tree final) (other : Freed first tree third) : final = third := by
  have same (id : NodeId) : final.node? id = third.node? id := by
    by_cases lost : first id
    · rw [one.gone id lost, other.gone id lost]
    · rw [one.kept id lost, other.kept id lost]
  exact ext_node? (one.size.trans other.size.symm) same

end Freed

/-- A node is freed with all that it owns in a forest that agrees with the tree there. -/
theorem Forest.freed (forest : tree.Forest) {fuel : Nat} {id : NodeId} {current : BlockTree}
    (enough : tree.nodes.size < fuel + tree.depth id)
    (same : ∀ other, tree.Owns id other → current.node? other = tree.node? other) :
    Freed (tree.Owns id) current (current.free fuel id) := by
  induction fuel generalizing id current with
  | zero =>
      have bound := tree.depth_le id
      omega
  | succ fuel ih =>
      -- The children are freed one after another. None of them owns anything of another one.
      have row (children : List NodeId) (nodup : children.Nodup) (below : ∀ child ∈ children, tree.Above id child)
          (current : BlockTree) (same : ∀ child ∈ children, ∀ other, tree.Owns child other →
            current.node? other = tree.node? other) :
          Freed (fun other => ∃ child ∈ children, tree.Owns child other) current
            (children.foldl (fun tree child => free tree fuel child) current) := by
        induction children generalizing current with
        | nil => exact ⟨rfl, by simp, fun _ _ => rfl⟩
        | cons child rest inner =>
            obtain ⟨absent, nodup⟩ := List.nodup_cons.1 nodup
            have here := below child List.mem_cons_self
            have deeper := forest.depth_lt here
            have first := ih (by omega) (same child List.mem_cons_self)
            have behind := inner nodup (fun next inside => below next (List.mem_cons_of_mem _ inside)) _
              fun next inside other owns => by
                have apart : child ≠ next := fun equal => absent (equal ▸ inside)
                refine (first.kept other fun owns' => ?_).trans
                  (same next (List.mem_cons_of_mem _ inside) other owns)
                exact owns'.apart forest here (below next (List.mem_cons_of_mem _ inside)) apart owns
            exact (first.trans behind).congr fun other => by simp
      unfold free
      cases found : current.node? id with
      | none =>
          have only (other : NodeId) (owns : tree.Owns id other) : other = id := by
            have gone := (same id .top).symm.trans found
            induction owns with
            | top => rfl
            | @child parent _ node _ here _ ih =>
                rw [ih, gone] at here
                cases here
          exact ⟨rfl, fun other owns => (only other owns).symm ▸ found, fun _ _ => rfl⟩
      | some node =>
          have live := (same id .top).symm.trans found
          have below (child : NodeId) (inside : child ∈ node.children) : tree.Above id child :=
            forest.down id node.shape child (shape?_of_some live) inside
          have rest := row node.children (forest.nodup id node.shape (shape?_of_some live)) below
            (current.erase id) fun child inside other owns => by
              have apart : other ≠ id := by
                rintro rfl
                exact owns.not_parent forest (below child inside)
              rw [node?_erase, if_neg apart]
              exact same other (Owns.trans (.child .top live inside) owns)
          refine ((Freed.one id current).trans rest).congr fun other => ⟨?_, fun owns => ?_⟩
          · rintro (rfl | ⟨child, inside, owns⟩)
            · exact .top
            · exact Owns.trans (.child .top live inside) owns
          · induction owns with
            | top => exact .inl rfl
            | @child parent next above _ here inside ih =>
                rcases ih with rfl | ⟨child, listed, owns⟩
                · cases here.symm.trans live
                  exact .inr ⟨next, inside, .top⟩
                · exact .inr ⟨child, listed, .child owns here inside⟩

/-- A node without a parent may go away with all that it owns. -/
theorem Forest.of_freed (forest : tree.Forest) {id : NodeId} (freed : Freed (tree.Owns id) tree final)
    (orphan : tree.parent? id = none) : final.Forest := by
  have above (parent child : NodeId) : final.Above parent child ↔
      tree.Above parent child ∧ ¬tree.Owns id parent := by
    unfold Above parent?
    by_cases lost : tree.Owns id child
    · rw [freed.gone child lost]
      refine iff_of_false (by simp) fun ⟨here, left⟩ => ?_
      rcases lost.up forest with rfl | ⟨up, there, owns⟩
      · exact Option.some_ne_none _ (Eq.trans here.symm orphan)
      · cases there.symm.trans here
        exact left owns
    · rw [freed.kept child lost]
      refine (and_iff_left_of_imp fun here owns => lost ?_).symm
      exact owns.of_mem_children ((forest.mem_children_iff parent child).2 here)
  have children (parent : NodeId) : final.children parent = tree.children parent ∧ ¬tree.Owns id parent ∨
      final.children parent = [] ∧ tree.Owns id parent := by
    by_cases lost : tree.Owns id parent
    · exact .inr ⟨children_of_not_live (freed.gone parent lost), lost⟩
    · exact .inl ⟨by rw [BlockTree.children, freed.kept parent lost]; rfl, lost⟩
  exact {
    mem_children_iff := fun parent child => by
      rw [above, ← forest.mem_children_iff]
      rcases children parent with ⟨same, left⟩ | ⟨empty, lost⟩
      · rw [same]
        simp [left]
      · rw [empty]
        simp [lost]
    nodup_children := fun parent => by
      rcases children parent with ⟨same, _⟩ | ⟨empty, _⟩
      · exact same ▸ forest.nodup_children parent
      · exact empty ▸ List.nodup_nil
    container := fun parent child inside => by
      rcases children parent with ⟨same, left⟩ | ⟨empty, _⟩
      · obtain ⟨shape, found, content⟩ := forest.container parent child (same ▸ inside)
        exact ⟨shape, (shape?_of_node? (freed.kept parent left)).trans found, content⟩
      · rw [empty] at inside
        cases inside
    acyclic := fun other cycle =>
      forest.acyclic other (TransGen.mono (fun parent child here => ((above parent child).1 here).1) _ _ cycle) }

/-- The tree in which a node has left its parent. -/
def detached (tree : BlockTree) (parent id : NodeId) : BlockTree :=
  (tree.modifyNode id fun node => { node with parent := none }).modifyNode parent fun node =>
    { node with children := node.children.filter (· ≠ id) }

@[simp] theorem size_detached (tree : BlockTree) (parent id : NodeId) :
    (tree.detached parent id).nodes.size = tree.nodes.size := by
  rw [detached, size_modifyNode, size_modifyNode]

theorem node?_detached {parent id : NodeId} (different : id ≠ parent) (other : NodeId) :
    (tree.detached parent id).node? other =
      if other = parent then (tree.node? parent).map fun node =>
        { node with children := node.children.filter (· ≠ id) }
      else if other = id then (tree.node? id).map fun node => { node with parent := none }
      else tree.node? other := by
  rw [detached, node?_modifyNode, node?_modifyNode]
  by_cases isParent : other = parent
  · subst isParent
    rw [if_pos rfl, if_neg different.symm, if_pos rfl]
  · rw [if_neg isParent, if_neg isParent]
    split
    · rename_i same
      rw [same]
    · rfl

theorem parent?_detached {parent id : NodeId} (different : id ≠ parent) (other : NodeId) :
    (tree.detached parent id).parent? other = if other = id then none else tree.parent? other := by
  unfold parent?
  rw [node?_detached different]
  by_cases isParent : other = parent
  · subst isParent
    rw [if_pos rfl, if_neg different.symm]
    cases tree.node? other <;> rfl
  · rw [if_neg isParent]
    split
    · cases tree.node? id <;> rfl
    · rfl

theorem children_detached {parent id : NodeId} (different : id ≠ parent) (other : NodeId) :
    (tree.detached parent id).children other =
      if other = parent then (tree.children parent).filter (· ≠ id) else tree.children other := by
  unfold children
  rw [node?_detached different]
  by_cases isParent : other = parent
  · rw [if_pos isParent, if_pos isParent]
    cases tree.node? parent <;> rfl
  · rw [if_neg isParent, if_neg isParent]
    by_cases same : other = id
    · rw [if_pos same, same]
      cases tree.node? id <;> rfl
    · rw [if_neg same]

theorem IsContainer.detached {parent id other : NodeId} (container : tree.IsContainer other)
    (different : id ≠ parent) : (tree.detached parent id).IsContainer other := by
  obtain ⟨shape, live, content⟩ := container
  obtain ⟨node, found, rfl⟩ := Option.map_eq_some_iff.1 live
  unfold IsContainer shape?
  rw [node?_detached different]
  split
  · rename_i same
    rw [← same, found]
    exact ⟨_, rfl, content⟩
  · split
    · rename_i same
      rw [← same, found]
      exact ⟨_, rfl, content⟩
    · exact ⟨_, live, content⟩

theorem Forest.detached (forest : tree.Forest) {parent id : NodeId} (owned : tree.Above parent id) :
    (tree.detached parent id).Forest := by
  have different : id ≠ parent := by
    rintro rfl
    exact forest.not_above_self id owned
  have parents := @parent?_detached tree parent id different
  have rows := @children_detached tree parent id different
  have above (up down : NodeId) : (tree.detached parent id).Above up down ↔ tree.Above up down ∧ down ≠ id := by
    unfold Above
    rw [parents]
    split <;> simp [*]
  exact {
    mem_children_iff := fun up down => by
      rw [above, rows, ← forest.mem_children_iff]
      split
      · rename_i same
        rw [same, List.mem_filter]
        simp
      · rename_i apart
        refine (and_iff_left_of_imp fun inside => ?_).symm
        rintro rfl
        cases ((forest.mem_children_iff up down).1 inside).symm.trans owned
        exact apart rfl
    nodup_children := fun up => by
      rw [rows]
      split
      · exact (forest.nodup_children parent).filter _
      · exact forest.nodup_children up
    container := fun up down inside => by
      have old : down ∈ tree.children up := by
        rw [rows] at inside
        split at inside
        · rename_i same
          exact same ▸ List.mem_of_mem_filter inside
        · exact inside
      exact (forest.container up down old).detached different
    acyclic := fun other cycle =>
      forest.acyclic other (TransGen.mono (fun up down here => ((above up down).1 here).1) _ _ cycle) }

/-- A node that leaves its parent keeps what it owns. -/
theorem Forest.owns_detached (forest : tree.Forest) {parent id : NodeId} (owned : tree.Above parent id)
    (other : NodeId) : (tree.detached parent id).Owns id other ↔ tree.Owns id other := by
  have different : id ≠ parent := by
    rintro rfl
    exact forest.not_above_self id owned
  have rows := @children_detached tree parent id different
  constructor
  · intro owns
    induction owns with
    | top => exact .top
    | @child above other node _ found inside ih =>
        have listed := rows above
        rw [children_of_node? found] at listed
        refine ih.of_mem_children ?_
        split at listed
        · rename_i same
          exact same ▸ List.mem_of_mem_filter (listed ▸ inside)
        · exact listed ▸ inside
  · intro owns
    induction owns with
    | top => exact .top
    | @child above other node owns found inside ih =>
        refine ih.of_mem_children ?_
        have apart : above ≠ parent := by
          rintro rfl
          exact owns.not_parent forest owned
        rw [rows, if_neg apart, children_of_node? found]
        exact inside

theorem detach_of_not_live {id : NodeId} (gone : tree.node? id = none) :
    detach id tree = .error { cause := .tree (.notLive id.index) } tree := by
  unfold detach
  rw [Step.bind_ok (Step.get_apply _), node_of_none gone]
  rfl

theorem detach_orphan {id : NodeId} {node : Node} (live : tree.node? id = some node)
    (orphan : node.parent = none) : detach id tree = .ok () tree := by
  unfold detach
  rw [Step.bind_ok (Step.get_apply _), Step.bind_apply, node_of_some live]
  simp only [Step.monadLift_ok, orphan]
  rfl

theorem Forest.detach_eq (forest : tree.Forest) {parent id : NodeId} (owned : tree.Above parent id) :
    detach id tree = .ok () (tree.detached parent id) := by
  have different : id ≠ parent := by
    rintro rfl
    exact forest.not_above_self id owned
  obtain ⟨shape, live, _⟩ := forest.parent owned
  obtain ⟨owner, above, rfl⟩ := Option.map_eq_some_iff.1 live
  obtain ⟨node, here, up⟩ := Option.bind_eq_some_iff.1 owned
  have first : (tree.modifyNode id fun node => { node with parent := none }).node parent = .ok owner :=
    node_of_some (by rw [node?_modifyNode, if_neg different.symm, above])
  unfold detach
  rw [Step.bind_ok (Step.get_apply _), Step.bind_apply, node_of_some here]
  simp only [Step.monadLift_ok, up, Step.bind_apply, Step.modify_apply, Step.get_apply, first]
  rfl

/-- What is left of a tree without a child of a node: the node has a child less, what the child owns is
gone, and everything else is as it was. -/
structure Removes (tree : BlockTree) (parent id : NodeId) (final : BlockTree) : Prop where
  forest : final.Forest
  size : final.nodes.size = tree.nodes.size
  owner : final.node? parent = (tree.node? parent).map fun node =>
    { node with children := node.children.filter (· ≠ id) }
  gone : ∀ other, tree.Owns id other → final.node? other = none
  kept : ∀ other, other ≠ parent → ¬tree.Owns id other → final.node? other = tree.node? other

/-- A tree in which everything that a node owns is freed. -/
theorem Forest.free (forest : tree.Forest) {fuel : Nat} (enough : tree.nodes.size < fuel) (id : NodeId) :
    Freed (tree.Owns id) tree (tree.free fuel id) :=
  forest.freed (by omega) fun _ _ => rfl

/-- A child is removed from its parent. -/
theorem Forest.remove_child (forest : tree.Forest) {parent id : NodeId} (owned : tree.Above parent id) :
    ∃ final, remove id tree = .ok () final ∧ tree.Removes parent id final := by
  have different : id ≠ parent := by
    rintro rfl
    exact forest.not_above_self id owned
  have freed := ((forest.detached owned).free (Nat.lt_succ_self _) id).congr (forest.owns_detached owned)
  have orphan : (tree.detached parent id).parent? id = none := by
    rw [parent?_detached different, if_pos rfl]
  refine ⟨_, by rw [remove, Step.bind_ok (forest.detach_eq owned)]; rfl, ?_⟩
  exact {
    forest := (forest.detached owned).of_freed
      (freed.congr fun other => (forest.owns_detached owned other).symm) orphan
    size := freed.size.trans (size_detached ..)
    owner := by
      have unowned : ¬tree.Owns id parent := fun owns => owns.not_parent forest owned
      rw [freed.kept parent unowned, node?_detached different, if_pos rfl]
    gone := freed.gone
    kept := fun other apart unowned => by
      have self : other ≠ id := by
        rintro rfl
        exact unowned .top
      rw [freed.kept other unowned, node?_detached different, if_neg apart, if_neg self] }

/-- A node without a parent is removed. -/
theorem Forest.remove_orphan (forest : tree.Forest) {id : NodeId} {node : Node} (live : tree.node? id = some node)
    (orphan : node.parent = none) :
    ∃ final, remove id tree = .ok () final ∧ final.Forest ∧ Freed (tree.Owns id) tree final := by
  have freed := forest.free (Nat.lt_succ_self _) id
  refine ⟨_, by rw [remove, Step.bind_ok (detach_orphan live orphan)]; rfl, forest.of_freed freed ?_, freed⟩
  rw [parent?, live]
  exact orphan

theorem remove_of_not_live {id : NodeId} (gone : tree.node? id = none) :
    remove id tree = .error { cause := .tree (.notLive id.index) } tree := by
  rw [remove, Step.bind_apply, detach_of_not_live gone]

/-- A removal keeps the order of creation. -/
theorem Removes.linked {parent id : NodeId} (removes : tree.Removes parent id final) (linked : tree.Linked) :
    final.Linked where
  toForest := removes.forest
  up child above found := by
    by_cases owned : tree.Owns id child
    · rw [parent?, removes.gone child owned] at found
      cases found
    · by_cases isParent : child = parent
      · rw [parent?, isParent, removes.owner] at found
        refine linked.up child above ?_
        rw [isParent, parent?]
        cases here : tree.node? parent with
        | none =>
            rw [here] at found
            cases found
        | some node =>
            rw [here] at found
            exact found
      · rw [parent?, removes.kept child isParent owned, ← parent?] at found
        exact linked.up child above found

end DexArsc.BlockTree
