/-
Chunks in a block tree: the nodes of a chunk that is kept verbatim, and its bytes.
-/

import DexArsc.Proofs.BlockTree.Linked
import DexArsc.Resource.Chunk

namespace DexArsc

namespace BlockTree

variable {tree final : BlockTree}

theorem serialize_of_leaf {id : NodeId} {bytes : Bytes} (fuel : Nat)
    (found : tree.leaf id = .ok bytes) : tree.serialize (fuel + 1) id = bytes.toList := by
  obtain ⟨node, here, kind⟩ := leaf_eq_ok.1 found
  rw [serialize, here]
  simp only [kind]

theorem serialize_of_container {id : NodeId} {shape : Shape} (fuel : Nat)
    (found : tree.shape? id = some shape) (container : shape.content = .container) :
    tree.serialize (fuel + 1) id = shape.children.flatMap (tree.serialize fuel) := by
  obtain ⟨node, here, rfl⟩ := Option.map_eq_some_iff.1 found
  rw [serialize, here]
  simp only [Node.content_eq_container.1 container]
  rfl

/-- A node is a container with two leaves, a header and a body. -/
structure HoldsChunk (tree : BlockTree) (node head body : NodeId) : Prop where
  node : ∃ shape, tree.shape? node = some shape ∧ shape.content = .container ∧
    shape.children = [head, body]
  head : ∃ shape, tree.shape? head = some shape ∧ shape.content = .leaf
  body : ∃ shape, tree.shape? body = some shape ∧ shape.content = .leaf

theorem leaf_of_shape? {id : NodeId} {shape : Shape} (found : tree.shape? id = some shape)
    (content : shape.content = .leaf) : ∃ bytes, tree.leaf id = .ok bytes := by
  obtain ⟨node, here, rfl⟩ := Option.map_eq_some_iff.1 found
  obtain ⟨bytes, kind⟩ := Node.content_eq_leaf.1 content
  exact ⟨bytes, leaf_eq_ok.2 ⟨node, here, kind⟩⟩

namespace HoldsChunk

variable {node head body : NodeId}

theorem congr (holds : tree.HoldsChunk node head body) (same : final.shape? = tree.shape?) :
    final.HoldsChunk node head body :=
  ⟨same ▸ holds.node, same ▸ holds.head, same ▸ holds.body⟩

theorem children (holds : tree.HoldsChunk node head body) : tree.children node = [head, body] := by
  obtain ⟨shape, found, _, children⟩ := holds.node
  rw [children_eq, found]
  exact children

theorem ne (holds : tree.HoldsChunk node head body) (linked : tree.Linked) : head ≠ body := by
  obtain ⟨shape, found, _, children⟩ := holds.node
  have nodup := linked.nodup node shape found
  rw [children] at nodup
  simpa using nodup

/-- The leaves of a chunk belong to no other node. -/
theorem not_mem_children (holds : tree.HoldsChunk node head body) (forest : tree.Forest) {other : NodeId}
    (different : other ≠ node) : head ∉ tree.children other ∧ body ∉ tree.children other := by
  obtain ⟨shape, found, _, children⟩ := holds.node
  have absent (id : NodeId) (inside : id ∈ shape.children) : id ∉ tree.children other := fun listed => by
    rw [children_eq] at listed
    cases above : tree.shape? other with
    | none =>
        rw [above] at listed
        cases listed
    | some owner =>
        rw [above] at listed
        have same := (forest.down other owner id above listed).symm.trans
          (forest.down node shape id found inside)
        exact different (Option.some.inj same)
  rw [children] at absent
  exact ⟨absent head (by simp), absent body (by simp)⟩

/-- The bytes of a chunk are those of its header and its body. -/
theorem toBytes_eq (holds : tree.HoldsChunk node head body) {front rest : Bytes}
    (headBytes : tree.leaf head = .ok front) (bodyBytes : tree.leaf body = .ok rest) :
    tree.toBytes node = front.toList ++ rest.toList := by
  obtain ⟨shape, found, container, children⟩ := holds.node
  obtain ⟨fuel, enough⟩ : ∃ fuel, tree.nodes.size = fuel + 1 :=
    ⟨tree.nodes.size - 1, by have := index_lt_of_shape? found; omega⟩
  rw [BlockTree.toBytes, enough, serialize_of_container _ found container, children]
  simp only [List.flatMap_cons, List.flatMap_nil, List.append_nil,
    serialize_of_leaf fuel headBytes, serialize_of_leaf fuel bodyBytes]

/-- The bytes of the leaves of a chunk. -/
theorem leaves (holds : tree.HoldsChunk node head body) : ∃ front rest : Bytes,
    tree.leaf head = .ok front ∧ tree.leaf body = .ok rest ∧
      tree.toBytes node = front.toList ++ rest.toList := by
  obtain ⟨_, here, content⟩ := holds.head
  obtain ⟨_, there, content'⟩ := holds.body
  obtain ⟨front, headBytes⟩ := leaf_of_shape? here content
  obtain ⟨rest, bodyBytes⟩ := leaf_of_shape? there content'
  exact ⟨front, rest, headBytes, bodyBytes, holds.toBytes_eq headBytes bodyBytes⟩

end HoldsChunk

end BlockTree

namespace Resource.Chunk

variable {tree final : BlockTree}

/-- The container of a chunk that is kept in a tree. -/
def container (chunk : Chunk) (tree : BlockTree) : Node where
  kind := .container
  tag := chunk.header.type.tag
  children := [⟨tree.nodes.size + 1⟩, ⟨tree.nodes.size + 2⟩]
  patches := [.size (.word ⟨tree.nodes.size + 1⟩ 4)]

/-- A chunk that is kept in fresh nodes: its container, its header and its body. -/
structure Laid (chunk : Chunk) (tree final : BlockTree) : Prop where
  forest : final.Forest
  size : final.nodes.size = tree.nodes.size + 3
  older : ∀ id, id.index < tree.nodes.size → final.node? id = tree.node? id
  node : final.node? tree.fresh = some (chunk.container tree)
  head : final.node? ⟨tree.nodes.size + 1⟩ = some {
    kind := .leaf chunk.head
    tag := chunk.header.type.tag
    parent := some tree.fresh
    length := UInt64.ofNat chunk.head.size }
  body : final.node? ⟨tree.nodes.size + 2⟩ = some {
    kind := .leaf chunk.body
    tag := chunk.header.type.tag
    parent := some tree.fresh
    length := UInt64.ofNat chunk.body.size }

/-- A chunk that is kept in a tree whose parents were created before their children. -/
structure Kept (chunk : Chunk) (tree final : BlockTree) : Prop extends Laid chunk tree final where
  grows : BlockTree.Grows tree.nodes.size tree final

/-- Every chunk can be kept. -/
theorem keep_laid (chunk : Chunk) (forest : tree.Forest) :
    ∃ final, chunk.keep tree = .ok tree.fresh final ∧ Laid chunk tree final := by
  obtain ⟨first, run₁, node⟩ := forest.newContainer chunk.header.type.tag
  obtain ⟨second, run₂, head⟩ := node.forest.newLeaf chunk.header.type.tag chunk.head
  obtain ⟨third, run₃, body⟩ := head.forest.newLeaf chunk.header.type.tag chunk.body
  have headId : first.fresh = ⟨tree.nodes.size + 1⟩ := by rw [BlockTree.fresh, node.size]
  have bodyId : second.fresh = ⟨tree.nodes.size + 2⟩ := by rw [BlockTree.fresh, head.size, node.size]
  have before : tree.fresh.index < first.fresh.index := by simp [BlockTree.fresh, node.size]
  have after : first.fresh.index < second.fresh.index := by simp [BlockTree.fresh, head.size]
  have nodeHead := BlockTree.ne_of_index_lt before
  have headBody := BlockTree.ne_of_index_lt after
  have nodeBody := BlockTree.ne_of_index_lt (Nat.lt_trans before after)
  have headLive := (body.others _ headBody).trans head.fresh
  obtain ⟨fourth, run₄, front⟩ := body.forest.addChild
    ((body.others _ nodeBody).trans ((head.others _ nodeHead).trans node.fresh)) rfl headLive rfl
    (body.forest.not_above_of_childless (BlockTree.children_of_node? headLive) nodeHead.symm)
  have bodyLive := (front.others _ nodeBody.symm headBody.symm).trans body.fresh
  obtain ⟨fifth, run₅, back⟩ := front.forest.addChild front.above rfl bodyLive rfl
    (front.forest.not_above_of_childless (BlockTree.children_of_node? bodyLive) nodeBody.symm)
  obtain ⟨final, run₆, patched⟩ := back.forest.addPatch back.above (.size (.word first.fresh 4))
  refine ⟨final, ?_, ?_⟩
  · unfold keep
    rw [Step.bind_ok run₁, Step.bind_ok run₂, Step.bind_ok run₃, Step.bind_ok run₄, Step.bind_ok run₅,
      Step.bind_ok run₆]
    rfl
  · exact {
      forest := patched.forest
      size := by rw [patched.size, back.size, front.size, body.size, head.size, node.size]
      older := fun id old => by
        have new : id.index < tree.fresh.index := old
        have apart := BlockTree.ne_of_index_lt new
        have apart' := BlockTree.ne_of_index_lt (Nat.lt_trans new before)
        have apart'' := BlockTree.ne_of_index_lt (Nat.lt_trans (Nat.lt_trans new before) after)
        rw [patched.others id apart, back.others id apart apart'', front.others id apart apart',
          body.others id apart'', head.others id apart', node.others id apart]
      node := by rw [patched.here, container, headId, bodyId]; rfl
      head := by
        rw [← headId, patched.others _ nodeHead.symm, back.others _ nodeHead.symm headBody, front.below]
      body := by rw [← bodyId, patched.others _ nodeBody.symm, back.below] }

/-- Every node behind a chunk that is kept is an old one, the container or one of its two leaves. -/
theorem Laid.node_cases {chunk : Chunk} (laid : Laid chunk tree final) {id : NodeId} {node : Node}
    (live : final.node? id = some node) : tree.node? id = some node ∨
      id = tree.fresh ∧ node = chunk.container tree ∨
        tree.fresh.index < id.index ∧ node.parent = some tree.fresh ∧ node.patches = [] := by
  have bound := BlockTree.index_lt live
  rw [laid.size] at bound
  have fresh (more : Nat) (here : id.index = tree.nodes.size + more) : id = ⟨tree.nodes.size + more⟩ :=
    NodeId.eq_iff.2 here
  rcases (by omega : id.index < tree.nodes.size ∨ id.index = tree.nodes.size + 0 ∨
    id.index = tree.nodes.size + 1 ∨ id.index = tree.nodes.size + 2) with old | here | here | here
  · exact .inl ((laid.older id old).symm.trans live)
  · cases fresh 0 here
    cases laid.node.symm.trans live
    exact .inr (.inl ⟨rfl, rfl⟩)
  · cases fresh 1 here
    cases laid.head.symm.trans live
    exact .inr (.inr ⟨Nat.lt_add_of_pos_right (by decide), rfl, rfl⟩)
  · cases fresh 2 here
    cases laid.body.symm.trans live
    exact .inr (.inr ⟨Nat.lt_add_of_pos_right (by decide), rfl, rfl⟩)

/-- Behind a chunk that is kept, parents were created before their children if they were so before. -/
theorem Laid.linked {chunk : Chunk} (laid : Laid chunk tree final) (linked : tree.Linked) : final.Linked where
  toForest := laid.forest
  up child id found := by
    obtain ⟨node, live, above⟩ := Option.bind_eq_some_iff.1 found
    rcases laid.node_cases live with old | ⟨_, rfl⟩ | ⟨behind, parent, _⟩
    · exact linked.up child id (by rw [BlockTree.parent?, old]; exact above)
    · cases above
    · cases parent.symm.trans above
      exact behind

theorem keep_ok (chunk : Chunk) (linked : tree.Linked) :
    ∃ final, chunk.keep tree = .ok tree.fresh final ∧ Kept chunk tree final := by
  obtain ⟨final, run, laid⟩ := keep_laid chunk linked.toForest
  exact ⟨final, run, laid, laid.linked linked, by rw [laid.size]; omega, laid.older⟩

/-- A chunk that is kept is held in the tree. -/
theorem Laid.holds {chunk : Chunk} (laid : Laid chunk tree final) :
    final.HoldsChunk tree.fresh ⟨tree.nodes.size + 1⟩ ⟨tree.nodes.size + 2⟩ where
  node := ⟨_, by rw [BlockTree.shape?, laid.node]; rfl, rfl, rfl⟩
  head := ⟨_, by rw [BlockTree.shape?, laid.head]; rfl, rfl⟩
  body := ⟨_, by rw [BlockTree.shape?, laid.body]; rfl, rfl⟩

end Resource.Chunk
end DexArsc
