/-
Block trees that are built from the root on: a parent was created before its children. What each
operation of a construction yields there.
-/

import DexArsc.Proofs.BlockTree.Forest

namespace DexArsc.BlockTree

open Relation (ReflTransGen)

variable {tree final third : BlockTree}

/-- The links agree, and a parent was created before its children. -/
structure Linked (tree : BlockTree) : Prop extends Forest tree where
  up : ∀ child id, tree.parent? child = some id → id.index < child.index

theorem linked_empty : Linked {} where
  toForest := forest_empty
  up child id found := by
    rw [parent?_eq, shape?_empty] at found
    cases found

namespace Linked

/-- Patches do not matter for the links. -/
theorem of_links (linked : tree.Linked)
    (same : ∀ id, (final.shape? id).map Shape.links = (tree.shape? id).map Shape.links) :
    final.Linked where
  toForest := linked.toForest.of_links same
  up child id found := linked.up child id (parent?_of_links (same child) ▸ found)

theorem congr (linked : tree.Linked) (same : final.shape? = tree.shape?) : final.Linked :=
  linked.of_links fun id => by rw [same]

theorem lt (linked : tree.Linked) {id child : NodeId} {shape : Shape}
    (found : tree.shape? id = some shape) (inside : child ∈ shape.children) :
    id.index < child.index :=
  linked.up child id (linked.down id shape child found inside)

theorem push (linked : tree.Linked) {node : Node} (childless : node.children = [])
    (orphan : node.parent = none) : (tree.push node).Linked where
  toForest := linked.toForest.push childless orphan
  up child id found := by
    rw [parent?_eq, shape?_push] at found
    split at found
    · rw [Option.bind_some, Node.shape, orphan] at found
      cases found
    · rw [← parent?_eq] at found
      exact linked.up child id found

/-- The children of a node may be brought into any order. -/
theorem reorder (linked : tree.Linked) {parent : NodeId} {order : List NodeId → List NodeId}
    (perm : ∀ children, (order children).Perm children) :
    (tree.modifyNode parent fun node => { node with children := order node.children }).Linked where
  toForest := linked.toForest.reorder perm
  up child id found := by
    refine linked.up child id (found ▸ Eq.symm ?_)
    exact parent?_modifyNode_of_same tree parent child fun _ => rfl

/-- What stands above a node was created before it. -/
theorem index_le (linked : tree.Linked) {above below : NodeId} (way : ReflTransGen tree.Above above below) :
    above.index ≤ below.index := by
  induction way with
  | refl => exact Nat.le_refl _
  | tail _ here ih => exact ih.trans (Nat.le_of_lt (linked.up _ _ here))

/-- A node is never among the ancestors of a node that was created before it. -/
theorem not_isAncestor (linked : tree.Linked) {parent child : NodeId}
    (before : parent.index < child.index) : ¬tree.isAncestor child parent = true := by
  rw [linked.isAncestor_iff]
  intro way
  have order := linked.index_le way
  omega

theorem attach (linked : tree.Linked) {parent child : NodeId} (attaches : tree.Attaches parent child)
    (before : parent.index < child.index) : (tree.attach parent child).Linked where
  toForest := linked.toForest.attach attaches
  up other id found := by
    obtain ⟨below, live, _⟩ := attaches.orphan
    rw [BlockTree.attach, parent?_adopt (ne_of_not_isAncestor attaches.acyclic) (by rw [live]; rfl)] at found
    split at found
    · rename_i same
      cases found
      exact same ▸ before
    · exact linked.up other id found

end Linked

/-- An orphan becomes a child of any container that was created before it. -/
theorem Linked.attaches (linked : tree.Linked) {parent child : NodeId} {owner node : Node}
    (above : tree.node? parent = some owner) (container : owner.kind = .container)
    (below : tree.node? child = some node) (orphan : node.parent = none)
    (order : parent.index < child.index) : tree.Attaches parent child :=
  attaches_iff.2 ⟨owner, node, above, container, below, orphan, linked.not_isAncestor order⟩

/-- A tree has grown when the nodes from a start on may be others, and those before it are the same. -/
structure Grows (start : Nat) (tree final : BlockTree) : Prop where
  linked : final.Linked
  size : tree.nodes.size ≤ final.nodes.size
  kept : ∀ id, id.index < start → final.node? id = tree.node? id

namespace Grows

variable {start : Nat}

theorem refl (linked : tree.Linked) : Grows start tree tree :=
  ⟨linked, Nat.le_refl _, fun _ _ => rfl⟩

theorem trans (before : Grows start tree final) (behind : Grows start final third) :
    Grows start tree third where
  linked := behind.linked
  size := Nat.le_trans before.size behind.size
  kept id old := (behind.kept id old).trans (before.kept id old)

theorem anti {less : Nat} (grows : Grows start tree final) (bound : less ≤ start) :
    Grows less tree final :=
  ⟨grows.linked, grows.size, fun id old => grows.kept id (Nat.lt_of_lt_of_le old bound)⟩

/-- A change of one node that keeps its links. -/
theorem modifyNode (linked : tree.Linked) {id : NodeId} (bound : start ≤ id.index) {change : Node → Node}
    (same : ∀ node, tree.node? id = some node → (change node).shape.links = node.shape.links) :
    Grows start tree (tree.modifyNode id change) where
  linked := linked.of_links (links_modifyNode same)
  size := Nat.le_of_eq (size_modifyNode ..).symm
  kept other old := by
    rw [node?_modifyNode, if_neg]
    rintro rfl
    omega

end Grows

namespace Rewritten

variable {inside : NodeId → Prop}

theorem linked (rewritten : Rewritten inside tree final) (linked : tree.Linked) : final.Linked :=
  linked.congr rewritten.shapes

theorem grows {start : Nat} (rewritten : Rewritten inside tree final) (linked : tree.Linked)
    (bound : ∀ id, inside id → start ≤ id.index) : Grows start tree final :=
  ⟨rewritten.linked linked, Nat.le_of_eq rewritten.size.symm, fun id old =>
    rewritten.others id fun here => absurd (bound id here) (Nat.not_le.2 old)⟩

end Rewritten

/-- A fresh node is added. -/
structure Created (tree : BlockTree) (node : Node) (final : BlockTree) : Prop where
  forest : final.Forest
  size : final.nodes.size = tree.nodes.size + 1
  fresh : final.node? tree.fresh = some node
  others : ∀ id, id ≠ tree.fresh → final.node? id = tree.node? id

/-- A fresh node is added to a tree whose parents were created before their children. -/
structure Pushed (tree : BlockTree) (node : Node) (final : BlockTree) : Prop
    extends Created tree node final where
  linked : final.Linked

theorem Forest.created (forest : tree.Forest) {node : Node} (childless : node.children = [])
    (orphan : node.parent = none) : tree.Created node (tree.push node) where
  forest := forest.push childless orphan
  size := size_push ..
  fresh := by rw [node?_push, if_pos rfl]
  others id other := by rw [node?_push, if_neg other]

namespace Forest

theorem newContainer (forest : tree.Forest) (tag : UInt32) : ∃ final,
    BlockTree.newContainer tag tree = .ok tree.fresh final ∧ tree.Created { kind := .container, tag } final :=
  ⟨_, newContainer_apply tag tree, forest.created rfl rfl⟩

theorem newLeaf (forest : tree.Forest) (tag : UInt32) (bytes : Bytes) : ∃ final,
    BlockTree.newLeaf tag bytes tree = .ok tree.fresh final ∧
      tree.Created { kind := .leaf bytes, tag, length := UInt64.ofNat bytes.size } final :=
  ⟨_, newLeaf_apply tag bytes tree, forest.created rfl rfl⟩

/-- A node without children stands above no other node. -/
theorem not_above_of_childless (forest : tree.Forest) {id other : NodeId} (childless : tree.children id = [])
    (different : id ≠ other) : ¬ReflTransGen tree.Above id other := fun way => by
  rcases way.cases_head with same | ⟨child, above, _⟩
  · exact different same
  · have inside := (forest.mem_children_iff id child).2 above
    rw [childless] at inside
    cases inside

/-- What stands above a node that was there before was there before as well. -/
theorem older_of_above (forest : tree.Forest)
    (parents : ∀ id, id.index < tree.nodes.size → final.parent? id = tree.parent? id) {above below : NodeId}
    (way : ReflTransGen final.Above above below) (older : below.index < tree.nodes.size) :
    above.index < tree.nodes.size := by
  induction way using ReflTransGen.head_induction_on with
  | refl => exact older
  | head here _ ih =>
      obtain ⟨shape, found, _⟩ := forest.parent ((parents _ ih).symm.trans here)
      exact index_lt_of_shape? found

end Forest

/-- A node becomes the last child of another one, wherever that was created. -/
structure Adopted (tree : BlockTree) (parent child : NodeId) (owner node : Node) (final : BlockTree) :
    Prop where
  forest : final.Forest
  size : final.nodes.size = tree.nodes.size
  above : final.node? parent = some { owner with children := owner.children ++ [child] }
  below : final.node? child = some { node with parent := some parent }
  others : ∀ id, id ≠ parent → id ≠ child → final.node? id = tree.node? id

/-- A node becomes the last child of one that was created before it. -/
structure Attached (tree : BlockTree) (parent child : NodeId) (owner node : Node) (final : BlockTree) :
    Prop extends Adopted tree parent child owner node final where
  linked : final.Linked
  order : parent.index < child.index

theorem Forest.adopted (forest : tree.Forest) {parent child : NodeId} {owner node : Node}
    (attaches : tree.Attaches parent child) (above : tree.node? parent = some owner)
    (below : tree.node? child = some node) : tree.Adopted parent child owner node (tree.attach parent child) := by
  have different := ne_of_not_isAncestor attaches.acyclic
  refine ⟨forest.attach attaches, size_attach .., ?_, ?_, fun id notParent notChild => ?_⟩
  · rw [node?_attach different, if_pos rfl, above]
    rfl
  · rw [node?_attach different, if_neg different, if_pos rfl, below]
    rfl
  · rw [node?_attach different, if_neg notParent, if_neg notChild]

/-- An orphan becomes a child of a container that it does not stand above. -/
theorem Forest.addChild (forest : tree.Forest) {parent child : NodeId} {owner node : Node}
    (above : tree.node? parent = some owner) (container : owner.kind = .container)
    (below : tree.node? child = some node) (orphan : node.parent = none)
    (free : ¬ReflTransGen tree.Above child parent) : ∃ final,
      BlockTree.addChild parent child tree = .ok () final ∧ tree.Adopted parent child owner node final := by
  have attaches : tree.Attaches parent child := attaches_iff.2 ⟨owner, node, above, container, below, orphan,
    fun ancestor => free ((forest.isAncestor_iff child parent).1 ancestor)⟩
  exact ⟨_, addChild_of_attaches attaches, forest.adopted attaches above below⟩

/-- One node is replaced, and its links are kept. -/
structure Replaced (tree : BlockTree) (id : NodeId) (node : Node) (final : BlockTree) : Prop where
  forest : final.Forest
  size : final.nodes.size = tree.nodes.size
  here : final.node? id = some node
  others : ∀ other, other ≠ id → final.node? other = tree.node? other

/-- One node is replaced in a tree whose parents were created before their children. -/
structure Altered (tree : BlockTree) (id : NodeId) (node : Node) (final : BlockTree) : Prop
    extends Replaced tree id node final where
  linked : final.Linked

theorem Forest.replaced (forest : tree.Forest) {id : NodeId} {node image : Node} (found : tree.node? id = some node)
    {change : Node → Node} (changed : change node = image) (same : image.shape.links = node.shape.links) :
    tree.Replaced id image (tree.modifyNode id change) where
  forest := forest.of_links (links_modifyNode fun other here => by
    cases here.symm.trans found
    rw [changed, same])
  size := size_modifyNode ..
  here := by rw [node?_modifyNode, if_pos rfl, found, Option.map_some, changed]
  others other different := by rw [node?_modifyNode, if_neg different]

theorem Forest.addPatch (forest : tree.Forest) {id : NodeId} {node : Node} (found : tree.node? id = some node)
    (patch : Patch) : ∃ final, BlockTree.addPatch id patch tree = .ok () final ∧
      tree.Replaced id { node with patches := node.patches ++ [patch] } final :=
  ⟨_, addPatch_ok found patch, forest.replaced found rfl rfl⟩

theorem ne_of_index_lt {first second : NodeId} (order : first.index < second.index) : first ≠ second := by
  rintro rfl
  exact Nat.lt_irrefl _ order

theorem Pushed.grows {node : Node} (pushed : tree.Pushed node final) :
    Grows tree.nodes.size tree final :=
  ⟨pushed.linked, by rw [pushed.size]; exact Nat.le_succ _, fun id old =>
    pushed.others id (ne_of_index_lt old)⟩

theorem Attached.grows {parent child : NodeId} {owner node : Node} {start : Nat}
    (attached : tree.Attached parent child owner node final) (bound : start ≤ parent.index) :
    Grows start tree final :=
  ⟨attached.linked, Nat.le_of_eq attached.size.symm, fun id old =>
    attached.others id (ne_of_index_lt (by omega)) (ne_of_index_lt (by have := attached.order; omega))⟩

theorem Altered.grows {id : NodeId} {node : Node} {start : Nat} (altered : tree.Altered id node final)
    (bound : start ≤ id.index) : Grows start tree final :=
  ⟨altered.linked, Nat.le_of_eq altered.size.symm, fun other old =>
    altered.others other (ne_of_index_lt (by omega))⟩

/-- A replaced node with the same shape leaves all shapes. -/
theorem Altered.shape?_eq {id : NodeId} {node image : Node} (altered : tree.Altered id image final)
    (found : tree.node? id = some node) (same : image.shape = node.shape) : final.shape? = tree.shape? := by
  funext other
  unfold shape?
  by_cases equal : other = id
  · rw [equal, altered.here, found, Option.map_some, Option.map_some, same]
  · rw [altered.others other equal]

namespace Linked

theorem pushed (linked : tree.Linked) {node : Node} (childless : node.children = [])
    (orphan : node.parent = none) : tree.Pushed node (tree.push node) :=
  ⟨linked.toForest.created childless orphan, linked.push childless orphan⟩

theorem newContainer (linked : tree.Linked) (tag : UInt32) : ∃ final,
    BlockTree.newContainer tag tree = .ok tree.fresh final ∧
      tree.Pushed { kind := .container, tag } final :=
  ⟨_, newContainer_apply tag tree, linked.pushed rfl rfl⟩

theorem newLeaf (linked : tree.Linked) (tag : UInt32) (bytes : Bytes) : ∃ final,
    BlockTree.newLeaf tag bytes tree = .ok tree.fresh final ∧
      tree.Pushed { kind := .leaf bytes, tag, length := UInt64.ofNat bytes.size } final :=
  ⟨_, newLeaf_apply tag bytes tree, linked.pushed rfl rfl⟩

/-- An orphan becomes a child of a container that was created before it. -/
theorem addChild (linked : tree.Linked) {parent child : NodeId} {owner node : Node}
    (above : tree.node? parent = some owner) (container : owner.kind = .container)
    (below : tree.node? child = some node) (orphan : node.parent = none)
    (order : parent.index < child.index) : ∃ final,
      BlockTree.addChild parent child tree = .ok () final ∧ tree.Attached parent child owner node final := by
  have attaches := linked.attaches above container below orphan order
  exact ⟨_, addChild_of_attaches attaches, linked.toForest.adopted attaches above below,
    linked.attach attaches order, order⟩

/-- A change of a node that keeps its links. -/
theorem altered (linked : tree.Linked) {id : NodeId} {node image : Node} (found : tree.node? id = some node)
    {change : Node → Node} (changed : change node = image) (same : image.shape.links = node.shape.links) :
    tree.Altered id image (tree.modifyNode id change) :=
  ⟨linked.toForest.replaced found changed same, (@Grows.modifyNode tree 0 linked id (Nat.zero_le _) change
    fun other here => by
      cases here.symm.trans found
      rw [changed, same]).linked⟩

theorem modifyLeaf (linked : tree.Linked) {id : NodeId} {node : Node} {old : Bytes}
    (found : tree.node? id = some node) (kind : node.kind = .leaf old) (change : Bytes → Bytes) :
    ∃ final, BlockTree.modifyLeaf id change tree = .ok () final ∧
      tree.Altered id { node with kind := .leaf (change old) } final := by
  refine ⟨_, modifyLeaf_ok (leaf_eq_ok.2 ⟨node, found, kind⟩) change,
    linked.altered found (by rw [kind]) ?_⟩
  rw [shape_of_leaf kind]

theorem addPatch (linked : tree.Linked) {id : NodeId} {node : Node} (found : tree.node? id = some node)
    (patch : Patch) : ∃ final, BlockTree.addPatch id patch tree = .ok () final ∧
      tree.Altered id { node with patches := node.patches ++ [patch] } final :=
  ⟨_, addPatch_ok found patch, linked.altered found rfl rfl⟩

theorem setLeaf (linked : tree.Linked) {id : NodeId} {node : Node} {old : Bytes}
    (found : tree.node? id = some node) (kind : node.kind = .leaf old) (bytes : Bytes) :
    ∃ final, BlockTree.setLeaf id bytes tree = .ok () final ∧
      tree.Altered id { node with kind := .leaf bytes, length := UInt64.ofNat bytes.size } final := by
  refine ⟨_, setLeaf_ok (leaf_eq_ok.2 ⟨node, found, kind⟩) bytes, linked.altered found rfl ?_⟩
  rw [shape_of_leaf kind]

end Linked

end DexArsc.BlockTree
