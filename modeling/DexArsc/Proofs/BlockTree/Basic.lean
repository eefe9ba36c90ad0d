/-
The arena of a block tree: what each operation changes, and what all of them keep. The shape of a
node is what a refresh leaves of it: its links and its patches, but neither its place nor its bytes.
-/

import DexArsc.BlockTree.Basic
import DexArsc.Proofs.Leads

namespace DexArsc

/-- What a node holds, without its bytes. -/
inductive Content
  | container
  | leaf
  | pad (padding : Padding)

/-- The content of a kind. -/
def NodeKind.content : NodeKind → Content
  | container => .container
  | leaf _ => .leaf
  | pad padding => .pad padding

/-- A node without its bytes and its place. -/
structure Shape where
  content : Content
  parent : Option NodeId := none
  children : List NodeId := []
  patches : List Patch := []

/-- A shape without its patches. -/
def Shape.links (shape : Shape) : Shape :=
  { shape with patches := [] }

/-- The shape of a node. -/
def Node.shape (node : Node) : Shape where
  content := node.kind.content
  parent := node.parent
  children := node.children
  patches := node.patches

theorem Node.content_eq_container {node : Node} :
    node.shape.content = .container ↔ node.kind = .container := by
  unfold Node.shape NodeKind.content
  cases node.kind <;> simp

theorem Node.content_eq_leaf {node : Node} :
    node.shape.content = .leaf ↔ ∃ bytes, node.kind = .leaf bytes := by
  unfold Node.shape NodeKind.content
  cases node.kind <;> simp

theorem NodeId.eq_iff {first second : NodeId} : first = second ↔ first.index = second.index := by
  cases first
  cases second
  simp

namespace BlockTree

variable {tree final third : BlockTree}

/-- The shape of a live node. -/
def shape? (tree : BlockTree) (id : NodeId) : Option Shape :=
  (tree.node? id).map Node.shape

theorem parent?_eq (tree : BlockTree) (id : NodeId) :
    tree.parent? id = (tree.shape? id).bind Shape.parent := by
  unfold parent? shape?
  cases tree.node? id <;> rfl

theorem children_eq (tree : BlockTree) (id : NodeId) :
    tree.children id = ((tree.shape? id).map Shape.children).getD [] := by
  unfold children shape?
  cases tree.node? id <;> rfl

theorem node_eq_ok {id : NodeId} {node : Node} :
    tree.node id = .ok node ↔ tree.node? id = some node := by
  unfold BlockTree.node
  cases tree.node? id <;> simp

theorem node_of_some {id : NodeId} {node : Node} (found : tree.node? id = some node) :
    tree.node id = .ok node :=
  node_eq_ok.2 found

theorem node_of_none {id : NodeId} (found : tree.node? id = none) :
    tree.node id = .error { cause := .tree (.notLive id.index) } := by
  rw [BlockTree.node, found]
  rfl

theorem leaf_eq_ok {id : NodeId} {bytes : Bytes} :
    tree.leaf id = .ok bytes ↔ ∃ node, tree.node? id = some node ∧ node.kind = .leaf bytes := by
  unfold leaf
  rw [Except.bind_eq_ok]
  simp only [node_eq_ok]
  refine exists_congr fun node => and_congr_right fun _ => ?_
  cases node.kind <;> simp [pure, Except.pure]

theorem leaf_congr {id : NodeId} (same : final.node? id = tree.node? id) : final.leaf id = tree.leaf id := by
  unfold leaf BlockTree.node
  rw [same]

/-- A live node has its place in the arena. -/
theorem index_lt {id : NodeId} {node : Node} (found : tree.node? id = some node) :
    id.index < tree.nodes.size := by
  unfold node? at found
  by_cases inside : id.index < tree.nodes.size
  · exact inside
  · rw [Array.getElem?_eq_none (Nat.le_of_not_lt inside)] at found
    cases found

theorem index_lt_of_shape? {id : NodeId} {shape : Shape} (found : tree.shape? id = some shape) :
    id.index < tree.nodes.size := by
  obtain ⟨node, here, _⟩ := Option.map_eq_some_iff.1 found
  exact index_lt here

/-- Trees with the same places and the same live nodes are the same. -/
theorem ext_node? (size : final.nodes.size = tree.nodes.size) (same : ∀ id, final.node? id = tree.node? id) :
    final = tree := by
  have cells : final.nodes = tree.nodes := Array.ext size fun place inside inside' => by
    have equal := same ⟨place⟩
    unfold node? at equal
    rwa [Array.getElem?_eq_getElem inside, Array.getElem?_eq_getElem inside', Option.join_some,
      Option.join_some] at equal
  cases tree
  cases final
  exact congrArg BlockTree.mk cells

theorem node?_modifyNode (tree : BlockTree) (id other : NodeId) (change : Node → Node) :
    (tree.modifyNode id change).node? other =
      if other = id then (tree.node? other).map change else tree.node? other := by
  unfold modifyNode node?
  rw [Array.getElem?_modify]
  by_cases same : other = id
  · subst same
    rw [if_pos rfl, if_pos rfl]
    cases tree.nodes[other.index]? with
    | none => rfl
    | some cell => cases cell <;> rfl
  · rw [if_neg same, if_neg fun equal => same (NodeId.eq_iff.2 equal.symm)]

@[simp] theorem size_modifyNode (tree : BlockTree) (id : NodeId) (change : Node → Node) :
    (tree.modifyNode id change).nodes.size = tree.nodes.size :=
  Array.size_modify ..

theorem shape?_modifyNode (tree : BlockTree) (id other : NodeId) {change : Node → Node}
    {image : Shape → Shape} (same : ∀ node, (change node).shape = image node.shape) :
    (tree.modifyNode id change).shape? other =
      if other = id then (tree.shape? other).map image else tree.shape? other := by
  unfold shape?
  rw [node?_modifyNode]
  split
  · cases tree.node? other with
    | none => rfl
    | some node => exact congrArg some (same node)
  · rfl

theorem modifyNode_congr {id : NodeId} {first second : Node → Node}
    (same : ∀ node, tree.node? id = some node → first node = second node) :
    tree.modifyNode id first = tree.modifyNode id second := by
  unfold modifyNode
  congr 1
  apply Array.ext_getElem?
  intro place
  rw [Array.getElem?_modify, Array.getElem?_modify]
  split
  · rename_i here
    subst here
    unfold node? at same
    cases cell : tree.nodes[id.index]? with
    | none => rfl
    | some content =>
        rw [cell] at same
        cases content with
        | none => rfl
        | some node => exact congrArg (some ∘ some) (same node rfl)
  · rfl

/-- A change of bytes or of a place leaves all shapes. -/
theorem shape?_modifyNode_of_same (tree : BlockTree) (id : NodeId) {change : Node → Node}
    (same : ∀ node, tree.node? id = some node → (change node).shape = node.shape) :
    (tree.modifyNode id change).shape? = tree.shape? := by
  funext other
  unfold shape?
  rw [node?_modifyNode]
  split
  · rename_i equal
    subst equal
    cases found : tree.node? other with
    | none => rfl
    | some node => exact congrArg some (same node found)
  · rfl

/-- The id of the next fresh node. -/
def fresh (tree : BlockTree) : NodeId :=
  ⟨tree.nodes.size⟩

/-- The tree with a fresh node. -/
def push (tree : BlockTree) (node : Node) : BlockTree :=
  { nodes := tree.nodes.push (some node) }

@[simp] theorem size_push (tree : BlockTree) (node : Node) :
    (tree.push node).nodes.size = tree.nodes.size + 1 :=
  Array.size_push ..

theorem node?_push (tree : BlockTree) (node : Node) (other : NodeId) :
    (tree.push node).node? other = if other = tree.fresh then some node else tree.node? other := by
  unfold push node? fresh
  rw [Array.getElem?_push]
  by_cases same : other = ⟨tree.nodes.size⟩
  · subst same
    simp
  · rw [if_neg same, if_neg fun equal => same (NodeId.eq_iff.2 equal)]

theorem node?_fresh (tree : BlockTree) : tree.node? tree.fresh = none := by
  unfold node? fresh
  rw [Array.getElem?_eq_none (Nat.le_refl _)]
  rfl

theorem shape?_fresh (tree : BlockTree) : tree.shape? tree.fresh = none := by
  rw [shape?, node?_fresh]
  rfl

theorem shape?_push (tree : BlockTree) (node : Node) (other : NodeId) : (tree.push node).shape? other =
    if other = tree.fresh then some node.shape else tree.shape? other := by
  unfold shape?
  rw [node?_push]
  split <;> rfl

theorem newContainer_apply (tag : UInt32) (tree : BlockTree) :
    newContainer tag tree = .ok tree.fresh (tree.push { kind := .container, tag }) := rfl

theorem newLeaf_apply (tag : UInt32) (bytes : Bytes) (tree : BlockTree) :
    newLeaf tag bytes tree =
      .ok tree.fresh (tree.push { kind := .leaf bytes, tag, length := UInt64.ofNat bytes.size }) :=
  rfl

theorem allocate_apply (kind : NodeKind) (tag : UInt32) (tree : BlockTree) :
    ∃ length, allocate kind tag tree = .ok tree.fresh (tree.push { kind, tag, length }) :=
  ⟨_, rfl⟩

/-- The tree in which a node is a child of another one, whose children are arranged anew. -/
def adopt (tree : BlockTree) (parent child : NodeId) (arrange : List NodeId → List NodeId) : BlockTree :=
  (tree.modifyNode parent fun node => { node with children := arrange node.children }).modifyNode
    child fun node => { node with parent := some parent }

/-- The tree in which a node is the last child of another one. -/
def attach (tree : BlockTree) (parent child : NodeId) : BlockTree :=
  tree.adopt parent child fun children => children ++ [child]

@[simp] theorem size_adopt (tree : BlockTree) (parent child : NodeId) (arrange : List NodeId → List NodeId) :
    (tree.adopt parent child arrange).nodes.size = tree.nodes.size := by
  rw [adopt, size_modifyNode, size_modifyNode]

@[simp] theorem size_attach (tree : BlockTree) (parent child : NodeId) :
    (tree.attach parent child).nodes.size = tree.nodes.size :=
  size_adopt ..

theorem node?_adopt {parent child : NodeId} (different : child ≠ parent)
    (arrange : List NodeId → List NodeId) (other : NodeId) :
    (tree.adopt parent child arrange).node? other =
      if other = parent then
        (tree.node? parent).map fun node => { node with children := arrange node.children }
      else if other = child then
        (tree.node? child).map fun node => { node with parent := some parent }
      else tree.node? other := by
  rw [adopt, node?_modifyNode, node?_modifyNode]
  by_cases isChild : other = child
  · subst isChild
    rw [if_pos rfl, if_neg different, if_pos rfl, if_neg different]
  · rw [if_neg isChild, if_neg isChild]
    split
    · rename_i same
      rw [same]
    · rfl

theorem node?_attach {parent child : NodeId} (different : child ≠ parent) (other : NodeId) :
    (tree.attach parent child).node? other =
      if other = parent then
        (tree.node? parent).map fun node => { node with children := node.children ++ [child] }
      else if other = child then
        (tree.node? child).map fun node => { node with parent := some parent }
      else tree.node? other :=
  node?_adopt different _ other

theorem shape?_adopt {parent child : NodeId} (different : child ≠ parent)
    (arrange : List NodeId → List NodeId) (other : NodeId) :
    (tree.adopt parent child arrange).shape? other =
      if other = parent then
        (tree.shape? parent).map fun shape => { shape with children := arrange shape.children }
      else if other = child then
        (tree.shape? child).map fun shape => { shape with parent := some parent }
      else tree.shape? other := by
  unfold shape?
  rw [node?_adopt different]
  split
  · cases tree.node? parent <;> rfl
  · split
    · cases tree.node? child <;> rfl
    · rfl

theorem shape?_attach {parent child : NodeId} (different : child ≠ parent) (other : NodeId) :
    (tree.attach parent child).shape? other =
      if other = parent then
        (tree.shape? parent).map fun shape => { shape with children := shape.children ++ [child] }
      else if other = child then
        (tree.shape? child).map fun shape => { shape with parent := some parent }
      else tree.shape? other :=
  shape?_adopt different _ other

theorem parent?_adopt {parent child : NodeId} (different : child ≠ parent) (live : (tree.shape? child).isSome)
    (arrange : List NodeId → List NodeId) (other : NodeId) :
    (tree.adopt parent child arrange).parent? other =
      if other = child then some parent else tree.parent? other := by
  rw [parent?_eq, shape?_adopt different]
  by_cases isChild : other = child
  · subst isChild
    obtain ⟨below, found⟩ := Option.isSome_iff_exists.1 live
    rw [if_neg different, if_pos rfl, if_pos rfl, found]
    rfl
  · rw [if_neg isChild, if_neg isChild, parent?_eq]
    split
    · rename_i same
      rw [same]
      cases tree.shape? parent <;> rfl
    · rfl

theorem children_adopt {parent child : NodeId} (different : child ≠ parent) (live : (tree.shape? parent).isSome)
    (arrange : List NodeId → List NodeId) (other : NodeId) :
    (tree.adopt parent child arrange).children other =
      if other = parent then arrange (tree.children parent) else tree.children other := by
  obtain ⟨shape, found⟩ := Option.isSome_iff_exists.1 live
  rw [children_eq, shape?_adopt different, children_eq, children_eq]
  by_cases isParent : other = parent
  · rw [if_pos isParent, if_pos isParent, found]
    rfl
  · rw [if_neg isParent, if_neg isParent]
    split
    · rename_i same
      rw [same]
      cases tree.shape? child <;> rfl
    · rfl

theorem ne_of_not_isAncestor {parent child : NodeId} (free : ¬tree.isAncestor child parent = true) :
    child ≠ parent := by
  rintro rfl
  exact free (by simp [isAncestor, ancestors])

/-- What has to hold for a node to become a child. -/
structure Attaches (tree : BlockTree) (parent child : NodeId) : Prop where
  owner : ∃ shape, tree.shape? parent = some shape ∧ shape.content = .container
  orphan : ∃ shape, tree.shape? child = some shape ∧ shape.parent = none
  acyclic : ¬tree.isAncestor child parent = true

theorem attaches_iff {parent child : NodeId} : tree.Attaches parent child ↔
    ∃ owner node, tree.node? parent = some owner ∧ owner.kind = .container ∧
      tree.node? child = some node ∧ node.parent = none ∧ ¬tree.isAncestor child parent = true := by
  constructor
  · rintro ⟨⟨above, owned, container⟩, ⟨below, found, orphan⟩, acyclic⟩
    obtain ⟨owner, here, rfl⟩ := Option.map_eq_some_iff.1 owned
    obtain ⟨node, there, rfl⟩ := Option.map_eq_some_iff.1 found
    exact ⟨owner, node, here, Node.content_eq_container.1 container, there, orphan, acyclic⟩
  · rintro ⟨owner, node, owned, container, found, orphan, acyclic⟩
    refine ⟨⟨owner.shape, by rw [shape?, owned]; rfl, ?_⟩,
      ⟨node.shape, by rw [shape?, found]; rfl, orphan⟩, acyclic⟩
    rw [Node.shape, container]
    rfl

/-- Where a node becomes a child at a position, or is refused. -/
theorem insertChild_ensures (parent : NodeId) (position : Nat) (child : NodeId) (tree : BlockTree) :
    (insertChild parent position child).Ensures tree
      (fun _ final => final = tree.adopt parent child (fun children => children.insertIdx position child) ∧
        tree.Attaches parent child ∧ position ≤ (tree.children parent).length)
      (fun final => final = tree ∧
        ¬(tree.Attaches parent child ∧ position ≤ (tree.children parent).length)) := by
  unfold insertChild Step.Ensures
  simp only [Step.bind_apply, Step.get_apply, attaches_iff, children]
  cases found : tree.node? child with
  | none => simp [node_of_none found]
  | some node =>
      cases orphan : node.parent with
      | some above => simp [node_of_some, found, orphan, Step.bind_apply]
      | none =>
          cases acyclic : tree.isAncestor child parent with
          | true => simp [node_of_some, found, orphan, Step.bind_apply]
          | false =>
              cases owned : tree.node? parent with
              | none => simp [node_of_some, node_of_none owned, found, orphan, Step.bind_apply]
              | some owner =>
                  cases kind : owner.kind with
                  | container =>
                      by_cases beyond : owner.children.length < position
                      · simp [node_of_some, owned, found, orphan, kind, Step.bind_apply, beyond]
                      · simp [node_of_some, owned, found, orphan, kind, Step.bind_apply, beyond,
                          Nat.le_of_not_lt beyond, adopt]
                  | leaf bytes =>
                      simp [node_of_some, owned, found, orphan, kind, Step.bind_apply]
                  | pad padding =>
                      simp [node_of_some, owned, found, orphan, kind, Step.bind_apply]

/-- Where a node becomes a last child, or is refused. -/
theorem addChild_ensures (parent child : NodeId) (tree : BlockTree) :
    (addChild parent child).Ensures tree
      (fun _ final => final = tree.attach parent child ∧ tree.Attaches parent child)
      (fun final => final = tree ∧ ¬tree.Attaches parent child) := by
  unfold addChild
  refine .behind (Step.get_apply _) ?_
  cases owned : tree.node? parent with
  | none =>
      refine Step.Ensures.stop (by rw [node_of_none owned]; rfl) ⟨rfl, fun attaches => ?_⟩
      obtain ⟨owner, _, here, _⟩ := attaches_iff.1 attaches
      rw [owned] at here
      cases here
  | some owner =>
      have length : (tree.children parent).length = owner.children.length := by rw [children, owned]
      have appended : (tree.adopt parent child fun children =>
          children.insertIdx owner.children.length child) = tree.attach parent child := by
        unfold attach adopt
        congr 1
        refine modifyNode_congr fun node here => ?_
        cases here.symm.trans owned
        simp
      refine .behind (by rw [node_of_some owned]; rfl) ((insertChild_ensures ..).imp
        (fun _ final ⟨same, attaches, _⟩ => ⟨same.trans appended, attaches⟩)
        fun final ⟨same, refused⟩ => ⟨same, fun attaches => refused ⟨attaches, Nat.le_of_eq length.symm⟩⟩)

theorem addChild_of_attaches {parent child : NodeId} (attaches : tree.Attaches parent child) :
    addChild parent child tree = .ok () (tree.attach parent child) := by
  have ensures := addChild_ensures parent child tree
  cases run : addChild parent child tree with
  | ok value final => rw [(ensures.ok run).1]
  | error fault final => exact absurd attaches (ensures.error run).2

theorem addPatch_ensures (id : NodeId) (patch : Patch) (tree : BlockTree) :
    (addPatch id patch).Ensures tree
      (fun _ final => final =
        tree.modifyNode id fun node => { node with patches := node.patches ++ [patch] })
      (fun final => final = tree) := by
  unfold addPatch Step.Ensures
  simp only [Step.bind_apply, Step.get_apply]
  cases found : tree.node? id with
  | none => simp [node_of_none found]
  | some node => simp [node_of_some found]

theorem addPatch_ok {id : NodeId} {node : Node} (found : tree.node? id = some node) (patch : Patch) :
    addPatch id patch tree = .ok () (tree.modifyNode id fun node =>
      { node with patches := node.patches ++ [patch] }) := by
  unfold addPatch
  rw [Step.bind_ok (Step.get_apply _), Step.bind_apply, node_of_some found]
  rfl

theorem modifyLeaf_ok {id : NodeId} {old : Bytes} (found : tree.leaf id = .ok old)
    (change : Bytes → Bytes) :
    modifyLeaf id change tree = .ok () (tree.modifyNode id fun node =>
      match node.kind with
      | .leaf bytes => { node with kind := .leaf (change bytes) }
      | _ => node) := by
  unfold modifyLeaf
  rw [Step.bind_ok (Step.get_apply _), Step.bind_apply, found]
  rfl

theorem setLeaf_ok {id : NodeId} {old : Bytes} (found : tree.leaf id = .ok old) (bytes : Bytes) :
    setLeaf id bytes tree = .ok () (tree.modifyNode id fun node =>
      { node with kind := .leaf bytes, length := UInt64.ofNat bytes.size }) := by
  unfold setLeaf
  rw [Step.bind_ok (Step.get_apply _), Step.bind_apply, found]
  rfl

/-- The bytes of a leaf do not count for its shape. -/
theorem shape_of_leaf {node : Node} {old : Bytes} (kind : node.kind = .leaf old) (bytes : Bytes)
    (offset length : UInt64) :
    { node with kind := .leaf bytes, offset, length : Node }.shape = node.shape := by
  rw [Node.shape, Node.shape, kind]
  rfl

/-- The bytes and places of some nodes are others, and nothing else is. -/
structure Rewritten (inside : NodeId → Prop) (tree final : BlockTree) : Prop where
  size : final.nodes.size = tree.nodes.size
  shapes : final.shape? = tree.shape?
  others : ∀ id, ¬inside id → final.node? id = tree.node? id

namespace Rewritten

variable {inside more : NodeId → Prop}

theorem refl (inside : NodeId → Prop) (tree : BlockTree) : Rewritten inside tree tree :=
  ⟨rfl, rfl, fun _ _ => rfl⟩

theorem trans (before : Rewritten inside tree final) (behind : Rewritten inside final third) :
    Rewritten inside tree third where
  size := behind.size.trans before.size
  shapes := behind.shapes.trans before.shapes
  others id outside := (behind.others id outside).trans (before.others id outside)

theorem mono (rewritten : Rewritten inside tree final) (implies : ∀ id, inside id → more id) :
    Rewritten more tree final :=
  ⟨rewritten.size, rewritten.shapes, fun id outside =>
    rewritten.others id fun here => outside (implies id here)⟩

theorem parent?_eq (rewritten : Rewritten inside tree final) (id : NodeId) :
    final.parent? id = tree.parent? id := by
  rw [BlockTree.parent?_eq, rewritten.shapes, ← BlockTree.parent?_eq]

theorem leaf_eq (rewritten : Rewritten inside tree final) {id : NodeId} (outside : ¬inside id) :
    final.leaf id = tree.leaf id :=
  leaf_congr (rewritten.others id outside)

/-- A change of one node that keeps its shape. -/
theorem modifyNode {id : NodeId} (here : inside id) {change : Node → Node}
    (same : ∀ node, tree.node? id = some node → (change node).shape = node.shape) :
    Rewritten inside tree (tree.modifyNode id change) where
  size := size_modifyNode ..
  shapes := shape?_modifyNode_of_same tree id same
  others other outside := by
    rw [node?_modifyNode, if_neg]
    rintro rfl
    exact outside here

theorem modifyLeaf {id : NodeId} (here : inside id) (change : Bytes → Bytes) (tree : BlockTree) :
    (modifyLeaf id change).Leads (Rewritten inside) tree := by
  unfold BlockTree.modifyLeaf
  refine .get (.check (.refl _ tree) fun old _ => .modify (.modifyNode here fun node _ => ?_))
  cases kind : node.kind with
  | leaf bytes => rw [shape_of_leaf kind]
  | container => rfl
  | pad padding => rfl

theorem setLeaf {id : NodeId} (here : inside id) (bytes : Bytes) (tree : BlockTree) :
    (setLeaf id bytes).Leads (Rewritten inside) tree := by
  unfold BlockTree.setLeaf
  refine .get (.check (.refl _ tree) fun old found => .modify (.modifyNode here fun node live => ?_))
  obtain ⟨other, there, kind⟩ := leaf_eq_ok.1 found
  cases live.symm.trans there
  rw [shape_of_leaf kind]

/-- A leaf stays a leaf. -/
theorem leaf (rewritten : Rewritten inside tree final) {id : NodeId} {bytes : Bytes}
    (found : tree.leaf id = .ok bytes) : ∃ bytes, final.leaf id = .ok bytes := by
  obtain ⟨node, here, kind⟩ := leaf_eq_ok.1 found
  have shape : final.shape? id = some node.shape := by
    rw [rewritten.shapes, shape?, here]
    rfl
  obtain ⟨node', here', same⟩ := Option.map_eq_some_iff.1 shape
  obtain ⟨bytes', kind'⟩ := Node.content_eq_leaf.1
    ((congrArg Shape.content same).trans (Node.content_eq_leaf.2 ⟨bytes, kind⟩))
  exact ⟨bytes', leaf_eq_ok.2 ⟨node', here', kind'⟩⟩

end Rewritten

/-- The bytes of a leaf are changed. -/
theorem modifyLeaf_rewrites {inside : NodeId → Prop} {id : NodeId} {old : Bytes}
    (found : tree.leaf id = .ok old) (here : inside id) (change : Bytes → Bytes) : ∃ final,
      modifyLeaf id change tree = .ok () final ∧ Rewritten inside tree final ∧
        final.leaf id = .ok (change old) := by
  have run := modifyLeaf_ok found change
  obtain ⟨node, live, kind⟩ := leaf_eq_ok.1 found
  refine ⟨_, run, (Rewritten.modifyLeaf here change tree).ensures.ok run, leaf_eq_ok.2
    ⟨{ node with kind := .leaf (change old) }, ?_, rfl⟩⟩
  rw [node?_modifyNode, if_pos rfl, live, Option.map_some, kind]

/-- The bytes of a leaf are replaced. -/
theorem setLeaf_rewrites {inside : NodeId → Prop} {id : NodeId} {old : Bytes}
    (found : tree.leaf id = .ok old) (here : inside id) (bytes : Bytes) : ∃ final,
      setLeaf id bytes tree = .ok () final ∧ Rewritten inside tree final ∧ final.leaf id = .ok bytes := by
  have run := setLeaf_ok found bytes
  obtain ⟨node, live, kind⟩ := leaf_eq_ok.1 found
  refine ⟨_, run, (Rewritten.setLeaf here bytes tree).ensures.ok run, leaf_eq_ok.2
    ⟨{ node with kind := .leaf bytes, length := UInt64.ofNat bytes.size }, ?_, rfl⟩⟩
  rw [node?_modifyNode, if_pos rfl, live, Option.map_some]

/-- Nodes in the order of a key. -/
def sortBy {κ : Type} (le : κ → κ → Bool) (key : NodeId → κ) (children : List NodeId) : List NodeId :=
  ((children.map fun child => (key child, child)).mergeSort fun a b => le a.1 b.1).map Prod.snd

theorem perm_sortBy {κ : Type} (le : κ → κ → Bool) (key : NodeId → κ) (children : List NodeId) :
    (sortBy le key children).Perm children := by
  have same : (children.map fun child => (key child, child)).map Prod.snd = children := by
    rw [List.map_map]
    exact List.map_id _
  unfold sortBy
  exact ((List.mergeSort_perm _ _).map Prod.snd).trans (List.Perm.of_eq same)

theorem sortChildren_ok {κ : Type} {parent : NodeId} {node : Node} (le : κ → κ → Bool)
    (key : BlockTree → NodeId → κ) (found : tree.node? parent = some node) :
    sortChildren parent le key tree = .ok () (tree.modifyNode parent fun node =>
      { node with children := sortBy le (key tree) node.children }) := by
  have same : (tree.modifyNode parent fun other =>
      { other with children := sortBy le (key tree) node.children }) =
      tree.modifyNode parent fun node => { node with children := sortBy le (key tree) node.children } :=
    modifyNode_congr fun other here => by
      cases here.symm.trans found
      rfl
  rw [← same]
  unfold sortChildren
  rw [Step.bind_ok (Step.get_apply _), Step.bind_apply, node_of_some found]
  rfl

end BlockTree
end DexArsc
