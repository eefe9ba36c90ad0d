/-
Block trees whose links agree. The parent of a node is the one node that lists it, and no node stands
above itself. The number of nodes above a node bounds every walk through the tree.
-/

import DexArsc.Proofs.BlockTree.Basic
import Mathlib.Data.Finset.Card
import Mathlib.Logic.Relation

namespace DexArsc.BlockTree

open Relation (TransGen ReflTransGen)

variable {tree final : BlockTree}

/-- One node is the parent of another. -/
def Above (tree : BlockTree) (above below : NodeId) : Prop :=
  tree.parent? below = some above

/-- A live node that may own children. -/
def IsContainer (tree : BlockTree) (id : NodeId) : Prop :=
  ∃ shape, tree.shape? id = some shape ∧ shape.content = .container

/-- Children and parents name each other, every child is listed once and by a container, and no node is
its own ancestor. -/
structure Forest (tree : BlockTree) : Prop where
  mem_children_iff : ∀ parent child, child ∈ tree.children parent ↔ tree.Above parent child
  nodup_children : ∀ parent, (tree.children parent).Nodup
  container : ∀ parent child, child ∈ tree.children parent → tree.IsContainer parent
  acyclic : ∀ id, ¬TransGen tree.Above id id

theorem children_of_shape? {id : NodeId} {shape : Shape} (found : tree.shape? id = some shape) :
    tree.children id = shape.children := by
  rw [children_eq, found]
  rfl

theorem children_of_node? {id : NodeId} {node : Node} (found : tree.node? id = some node) :
    tree.children id = node.children := by
  rw [children, found]

theorem shape?_of_some {id : NodeId} {node : Node} (found : tree.node? id = some node) :
    tree.shape? id = some node.shape := by
  rw [shape?, found]
  rfl

theorem shape?_of_node? {id : NodeId} (same : final.node? id = tree.node? id) :
    final.shape? id = tree.shape? id := by
  unfold shape?
  rw [same]

theorem children_of_not_live {id : NodeId} (gone : tree.node? id = none) : tree.children id = [] := by
  rw [children, gone]

theorem parent?_of_links {id : NodeId}
    (same : (final.shape? id).map Shape.links = (tree.shape? id).map Shape.links) :
    final.parent? id = tree.parent? id := by
  have links (shape? : Option Shape) :
      shape?.bind Shape.parent = (shape?.map Shape.links).bind Shape.parent := by
    cases shape? <;> rfl
  rw [parent?_eq, parent?_eq, links, same, ← links]

theorem children_of_links {id : NodeId}
    (same : (final.shape? id).map Shape.links = (tree.shape? id).map Shape.links) :
    final.children id = tree.children id := by
  have links (shape? : Option Shape) :
      (shape?.map Shape.children).getD [] = ((shape?.map Shape.links).map Shape.children).getD [] := by
    cases shape? <;> rfl
  rw [children_eq, children_eq, links, same, ← links]

theorem IsContainer.of_links {id : NodeId} (container : tree.IsContainer id)
    (same : (final.shape? id).map Shape.links = (tree.shape? id).map Shape.links) : final.IsContainer id := by
  obtain ⟨shape, found, content⟩ := container
  rw [found] at same
  obtain ⟨other, here, links⟩ := Option.map_eq_some_iff.1 same
  exact ⟨other, here, (congrArg Shape.content links).trans content⟩

namespace Forest

theorem not_above_self (forest : tree.Forest) (id : NodeId) : ¬tree.Above id id := fun above =>
  forest.acyclic id (.single above)

/-- The children of a live node name it. -/
theorem down (forest : tree.Forest) (id : NodeId) (shape : Shape) (child : NodeId)
    (found : tree.shape? id = some shape) (inside : child ∈ shape.children) : tree.parent? child = some id :=
  (forest.mem_children_iff id child).1 (children_of_shape? found ▸ inside)

theorem nodup (forest : tree.Forest) (id : NodeId) (shape : Shape) (found : tree.shape? id = some shape) :
    shape.children.Nodup :=
  children_of_shape? found ▸ forest.nodup_children id

theorem owner (forest : tree.Forest) (id : NodeId) (shape : Shape) (child : NodeId)
    (found : tree.shape? id = some shape) (inside : child ∈ shape.children) : shape.content = .container := by
  obtain ⟨other, here, content⟩ := forest.container id child (children_of_shape? found ▸ inside)
  cases here.symm.trans found
  exact content

/-- A child is live. -/
theorem live (forest : tree.Forest) {id child : NodeId} {shape : Shape}
    (found : tree.shape? id = some shape) (inside : child ∈ shape.children) :
    ∃ below, tree.shape? child = some below ∧ below.parent = some id := by
  have parent := forest.down id shape child found inside
  rw [parent?_eq] at parent
  exact Option.bind_eq_some_iff.1 parent

/-- A parent is a live container that lists its child. -/
theorem parent (forest : tree.Forest) {above below : NodeId} (here : tree.Above above below) :
    ∃ shape, tree.shape? above = some shape ∧ shape.content = .container ∧ below ∈ shape.children := by
  have inside := (forest.mem_children_iff above below).2 here
  obtain ⟨shape, found, content⟩ := forest.container above below inside
  exact ⟨shape, found, content, children_of_shape? found ▸ inside⟩

/-- Only the links matter, and the order of children does not. -/
theorem of_arranged (forest : tree.Forest) (parents : ∀ id, final.parent? id = tree.parent? id)
    (rows : ∀ id, (final.children id).Perm (tree.children id))
    (containers : ∀ id, tree.IsContainer id → final.IsContainer id) : final.Forest := by
  have above : final.Above = tree.Above := by
    funext above below
    rw [Above, Above, parents]
  exact {
    mem_children_iff := fun parent child => by
      rw [above, (rows parent).mem_iff]
      exact forest.mem_children_iff parent child
    nodup_children := fun parent => (rows parent).nodup_iff.2 (forest.nodup_children parent)
    container := fun parent child inside =>
      containers parent (forest.container parent child ((rows parent).mem_iff.1 inside))
    acyclic := above ▸ forest.acyclic }

/-- Patches do not matter for the links. -/
theorem of_links (forest : tree.Forest)
    (same : ∀ id, (final.shape? id).map Shape.links = (tree.shape? id).map Shape.links) : final.Forest :=
  forest.of_arranged (fun id => parent?_of_links (same id)) (fun id => .of_eq (children_of_links (same id)))
    fun id container => container.of_links (same id)

theorem congr (forest : tree.Forest) (same : final.shape? = tree.shape?) : final.Forest :=
  forest.of_links fun id => by rw [same]

end Forest

theorem shape?_empty (id : NodeId) : ({} : BlockTree).shape? id = none := by
  unfold shape? node?
  simp

theorem forest_empty : Forest {} := by
  have parents (id : NodeId) : ({} : BlockTree).parent? id = none := by
    rw [parent?_eq, shape?_empty]
    rfl
  have children (id : NodeId) : ({} : BlockTree).children id = [] := by
    rw [children_eq, shape?_empty]
    rfl
  exact {
    mem_children_iff := fun parent child => by simp [Above, parents, children]
    nodup_children := fun parent => by simp [children]
    container := fun parent child inside => by simp [children] at inside
    acyclic := fun id cycle => by
      obtain ⟨_, above, _⟩ := TransGen.head'_iff.1 cycle
      rw [Above, parents] at above
      cases above }

theorem Forest.push (forest : tree.Forest) {node : Node} (childless : node.children = [])
    (orphan : node.parent = none) : (tree.push node).Forest := by
  refine forest.of_arranged (fun id => ?_) (fun id => .of_eq ?_) fun id ⟨shape, found, content⟩ => ?_
  · rw [parent?_eq, parent?_eq, shape?_push]
    split
    · rename_i same
      rw [same, shape?_fresh]
      exact orphan
    · rfl
  · rw [children_eq, children_eq, shape?_push]
    split
    · rename_i same
      rw [same, shape?_fresh]
      exact childless
    · rfl
  · refine ⟨shape, ?_, content⟩
    rw [shape?_push, if_neg, found]
    rintro rfl
    rw [shape?_fresh] at found
    cases found

/-- A change of a node that keeps its links keeps all links. -/
theorem links_modifyNode {id : NodeId} {change : Node → Node}
    (same : ∀ node, tree.node? id = some node → (change node).shape.links = node.shape.links) (other : NodeId) :
    ((tree.modifyNode id change).shape? other).map Shape.links = (tree.shape? other).map Shape.links := by
  unfold shape?
  rw [node?_modifyNode]
  split
  · rename_i equal
    subst equal
    cases found : tree.node? other with
    | none => rfl
    | some node => exact congrArg some (same node found)
  · rfl

/-- A change that keeps the parent of a node keeps all parents. -/
theorem parent?_modifyNode_of_same (tree : BlockTree) (id other : NodeId) {change : Node → Node}
    (same : ∀ node, (change node).parent = node.parent) :
    (tree.modifyNode id change).parent? other = tree.parent? other := by
  unfold parent?
  rw [node?_modifyNode]
  split
  · cases tree.node? other with
    | none => rfl
    | some node => exact same node
  · rfl

/-- The children of a node may be brought into any order. -/
theorem Forest.reorder (forest : tree.Forest) {parent : NodeId} {order : List NodeId → List NodeId}
    (perm : ∀ children, (order children).Perm children) :
    (tree.modifyNode parent fun node => { node with children := order node.children }).Forest := by
  have shapes (other : NodeId) := @shape?_modifyNode tree parent other
    (fun node => { node with children := order node.children })
    (fun shape => { shape with children := order shape.children }) fun _ => rfl
  refine forest.of_arranged (fun id => ?_) (fun id => ?_) fun id ⟨shape, found, content⟩ => ?_
  · exact parent?_modifyNode_of_same tree parent id fun _ => rfl
  · rw [children_eq, children_eq, shapes]
    split
    · cases tree.shape? id with
      | none => exact .refl _
      | some shape => exact perm _
    · exact .refl _
  · rw [IsContainer, shapes, found]
    split
    · exact ⟨_, rfl, content⟩
    · exact ⟨_, rfl, content⟩

open Classical in
/-- The number of nodes above a node. -/
noncomputable def depth (tree : BlockTree) (id : NodeId) : Nat :=
  ((Finset.range tree.nodes.size).filter fun place => TransGen tree.Above ⟨place⟩ id).card

theorem depth_le (tree : BlockTree) (id : NodeId) : tree.depth id ≤ tree.nodes.size := by
  classical
  unfold depth
  exact (Finset.card_filter_le _ _).trans_eq (Finset.card_range _)

theorem depth_congr (size : final.nodes.size = tree.nodes.size) (same : final.shape? = tree.shape?) (id : NodeId) :
    final.depth id = tree.depth id := by
  have above : final.Above = tree.Above := by
    funext above below
    rw [Above, Above, parent?_eq, same, ← parent?_eq]
  unfold depth
  rw [above, size]

/-- A node is deeper than its parent. -/
theorem Forest.depth_lt (forest : tree.Forest) {above below : NodeId} (here : tree.Above above below) :
    tree.depth above < tree.depth below := by
  classical
  obtain ⟨shape, found, _⟩ := forest.parent here
  unfold depth
  refine Finset.card_lt_card (Finset.ssubset_iff_of_subset ?_ |>.2 ⟨above.index, ?_, ?_⟩)
  · intro place inside
    rw [Finset.mem_filter] at inside ⊢
    exact ⟨inside.1, inside.2.tail here⟩
  · rw [Finset.mem_filter, Finset.mem_range]
    exact ⟨index_lt_of_shape? found, .single here⟩
  · rw [Finset.mem_filter]
    exact fun inside => forest.acyclic above inside.2

/-- From every node, walks towards a root end. -/
theorem Forest.wellFounded (forest : tree.Forest) : WellFounded tree.Above :=
  Subrelation.wf (fun here => forest.depth_lt here) (measure tree.depth).wf

/-- From every node, walks towards the leaves end. -/
theorem Forest.wellFounded_flip (forest : tree.Forest) : WellFounded fun below above => tree.Above above below := by
  refine Subrelation.wf (fun {below above} here => ?_) (measure fun id => tree.nodes.size - tree.depth id).wf
  have deeper := forest.depth_lt here
  have bound := tree.depth_le below
  change tree.nodes.size - tree.depth below < tree.nodes.size - tree.depth above
  omega

theorem reflTransGen_of_mem_ancestors {fuel : Nat} {id candidate : NodeId}
    (inside : candidate ∈ tree.ancestors fuel (some id)) : ReflTransGen tree.Above candidate id := by
  induction fuel generalizing id with
  | zero => cases inside
  | succ fuel ih =>
      unfold ancestors at inside
      rcases List.mem_cons.1 inside with rfl | further
      · exact .refl
      · cases parent : tree.parent? id with
        | none =>
            rw [parent] at further
            cases fuel <;> cases further
        | some above =>
            rw [parent] at further
            exact (ih further).tail parent

/-- A walk that is longer than the way to the root meets all that stands above. -/
theorem Forest.mem_ancestors (forest : tree.Forest) {fuel : Nat} {id candidate : NodeId}
    (enough : tree.depth id < fuel) (above : ReflTransGen tree.Above candidate id) :
    candidate ∈ tree.ancestors fuel (some id) := by
  induction fuel generalizing id with
  | zero => omega
  | succ fuel ih =>
      unfold ancestors
      rcases ReflTransGen.cases_tail above with same | ⟨parent, further, here⟩
      · exact same ▸ List.mem_cons_self
      · have shallower := forest.depth_lt here
        rw [show tree.parent? id = some parent from here]
        exact List.mem_cons_of_mem _ (ih (by omega) further)

/-- The walk towards the root decides what is an ancestor. -/
theorem Forest.isAncestor_iff (forest : tree.Forest) (candidate id : NodeId) :
    tree.isAncestor candidate id = true ↔ ReflTransGen tree.Above candidate id := by
  rw [isAncestor, List.contains_iff_mem]
  exact ⟨reflTransGen_of_mem_ancestors, forest.mem_ancestors (Nat.lt_succ_of_le (tree.depth_le id))⟩

/-- The parents in a tree with one link more. -/
theorem reflTransGen_of_link {parent child : NodeId}
    (links : ∀ above below, final.Above above below → tree.Above above below ∨ above = parent ∧ below = child)
    {first last : NodeId} (way : TransGen final.Above first last) : TransGen tree.Above first last ∨
      ReflTransGen tree.Above first parent ∧ ReflTransGen tree.Above child last := by
  induction way with
  | single here =>
      rcases links _ _ here with old | ⟨rfl, rfl⟩
      · exact .inl (.single old)
      · exact .inr ⟨.refl, .refl⟩
  | tail _ here ih =>
      rcases links _ _ here with old | ⟨rfl, rfl⟩
      · exact ih.imp (·.tail old) fun ⟨before, behind⟩ => ⟨before, behind.tail old⟩
      · rcases ih with before | ⟨before, _⟩
        · exact .inr ⟨before.to_reflTransGen, .refl⟩
        · exact .inr ⟨before, .refl⟩

theorem IsContainer.adopt {parent child id : NodeId} (container : tree.IsContainer id)
    (different : child ≠ parent) (arrange : List NodeId → List NodeId) :
    (tree.adopt parent child arrange).IsContainer id := by
  obtain ⟨shape, live, content⟩ := container
  unfold IsContainer
  rw [shape?_adopt different]
  split
  · rename_i same
    rw [← same, live]
    exact ⟨_, rfl, content⟩
  · split
    · rename_i same
      rw [← same, live]
      exact ⟨_, rfl, content⟩
    · exact ⟨shape, live, content⟩

/-- An orphan becomes a child of a container that does not stand below it. -/
theorem Forest.adopt (forest : tree.Forest) {parent child : NodeId} (attaches : tree.Attaches parent child)
    (arrange : List NodeId → List NodeId)
    (perm : (arrange (tree.children parent)).Perm (child :: tree.children parent)) :
    (tree.adopt parent child arrange).Forest := by
  obtain ⟨owner, owned, container⟩ := attaches.owner
  obtain ⟨below, found, orphan⟩ := attaches.orphan
  have different := ne_of_not_isAncestor attaches.acyclic
  have parents := @parent?_adopt tree parent child different (by rw [found]; rfl) arrange
  have rows := @children_adopt tree parent child different (by rw [owned]; rfl) arrange
  have parentless : tree.parent? child = none := by rw [parent?_eq, found]; exact orphan
  have unlisted (id : NodeId) : child ∉ tree.children id := fun inside => by
    have above := (forest.mem_children_iff id child).1 inside
    rw [Above, parentless] at above
    cases above
  have links (above below : NodeId) : (tree.adopt parent child arrange).Above above below ↔
      tree.Above above below ∨ above = parent ∧ below = child := by
    unfold Above
    rw [parents]
    by_cases same : below = child
    · rw [if_pos same, same, parentless]
      simp [eq_comm]
    · rw [if_neg same]
      simp [same]
  exact {
    mem_children_iff := fun above below => by
      rw [links, rows, ← forest.mem_children_iff]
      by_cases same : above = parent
      · rw [if_pos same, perm.mem_iff, List.mem_cons, same, or_comm]
        simp
      · rw [if_neg same]
        simp [same]
    nodup_children := fun above => by
      rw [rows]
      split
      · exact perm.nodup_iff.2 (List.nodup_cons.2 ⟨unlisted parent, forest.nodup_children parent⟩)
      · exact forest.nodup_children above
    container := fun above below inside => by
      rw [rows] at inside
      split at inside
      · rename_i same
        exact same ▸ IsContainer.adopt ⟨owner, owned, container⟩ different arrange
      · exact (forest.container above below inside).adopt different arrange
    acyclic := fun id cycle => by
      rcases reflTransGen_of_link (fun above below => (links above below).1) cycle with old | ⟨before, behind⟩
      · exact forest.acyclic id old
      · exact attaches.acyclic ((forest.isAncestor_iff child parent).2 (behind.trans before)) }

theorem Forest.attach (forest : tree.Forest) {parent child : NodeId} (attaches : tree.Attaches parent child) :
    (tree.attach parent child).Forest :=
  forest.adopt attaches _ (List.perm_append_singleton _ _)

end DexArsc.BlockTree
