/-
Packages that a container of a block tree houses: every chunk of a package has a header and a body below the
package's node, and the children of the container are the nodes of the packages, in their order. Each edit of
the row keeps this.
-/

import DexArsc.Proofs.BlockTree.Removal
import DexArsc.Proofs.Resource.Package
import Mathlib.Data.List.Nodup

namespace DexArsc.Resource

namespace Package

variable {tree final : BlockTree} {package : Package}

/-- The chunks of a package with their bytes. -/
def contents (package : Package) (tree : BlockTree) : List (ChunkType × List UInt8) :=
  package.chunks.map fun chunk => (chunk.1, tree.toBytes chunk.2)

/-- The chunks of a package stand below its node. -/
structure Held (package : Package) (tree : BlockTree) : Prop where
  node : ∃ shape, tree.shape? package.node = some shape ∧ shape.content = .container
  inside : ∀ chunk ∈ package.chunks, chunk.2 ∈ tree.children package.node
  holds : ∀ chunk ∈ package.chunks, ∃ head body, tree.HoldsChunk chunk.2 head body
  nodup : (package.chunks.map Prod.snd).Nodup

namespace Held

theorem owner (held : package.Held tree) :
    ∃ owner, tree.node? package.node = some owner ∧ owner.kind = .container := by
  obtain ⟨_, found, content⟩ := held.node
  obtain ⟨owner, live, rfl⟩ := Option.map_eq_some_iff.1 found
  exact ⟨owner, live, Node.content_eq_container.1 content⟩

theorem owns (held : package.Held tree) {chunk : ChunkType × NodeId} (listed : chunk ∈ package.chunks) :
    tree.Owns package.node chunk.2 :=
  BlockTree.Owns.top.of_mem_children (held.inside chunk listed)

/-- The chunks stay where they are as long as the package's node lists them and the nodes below it keep
their shapes. -/
theorem frame (held : package.Held tree) (linked : tree.Linked)
    (node : ∃ shape, final.shape? package.node = some shape ∧ shape.content = .container ∧
      ∀ id ∈ tree.children package.node, id ∈ shape.children)
    (same : ∀ id, tree.Owns package.node id → id ≠ package.node → final.shape? id = tree.shape? id) :
    package.Held final := by
  obtain ⟨shape, found, container, listed⟩ := node
  refine ⟨⟨shape, found, container⟩, fun chunk inside => ?_, fun chunk inside => ?_, held.nodup⟩
  · rw [BlockTree.children_of_shape? found]
    exact listed _ (held.inside chunk inside)
  · obtain ⟨head, body, holds⟩ := held.holds chunk inside
    obtain ⟨below, live, _⟩ := held.node
    have owned := held.owns inside
    have low : package.node.index < chunk.2.index :=
      linked.lt live (BlockTree.children_of_shape? live ▸ held.inside chunk inside)
    have leaf (id : NodeId) (child : id ∈ tree.children chunk.2) : final.shape? id = tree.shape? id := by
      have owned' := owned.of_mem_children child
      refine same id owned' (BlockTree.ne_of_index_lt ?_).symm
      obtain ⟨shape, here, _, children⟩ := holds.node
      exact Nat.lt_trans low (linked.lt here (BlockTree.children_of_shape? here ▸ child))
    have children := holds.children
    refine ⟨head, body, ?_, ?_, ?_⟩
    · rw [same chunk.2 owned (BlockTree.ne_of_index_lt low).symm]
      exact holds.node
    · rw [leaf head (by rw [children]; simp)]
      exact holds.head
    · rw [leaf body (by rw [children]; simp)]
      exact holds.body

/-- A package is held wherever the nodes that it owns have the same shapes. -/
theorem of_owned (held : package.Held tree) (linked : tree.Linked)
    (same : ∀ id, tree.Owns package.node id → final.shape? id = tree.shape? id) : package.Held final := by
  obtain ⟨shape, found, container⟩ := held.node
  refine held.frame linked ⟨shape, (same _ .top).trans found, container, fun id inside => ?_⟩
    fun id owned _ => same id owned
  exact BlockTree.children_of_shape? found ▸ inside

theorem congr (held : package.Held tree) (linked : tree.Linked) (same : final.shape? = tree.shape?) :
    package.Held final :=
  held.of_owned linked fun id _ => by rw [same]

theorem grown (held : package.Held tree) (linked : tree.Linked)
    (grows : BlockTree.Grows tree.nodes.size tree final) : package.Held final :=
  held.of_owned linked fun id owned => by
    obtain ⟨shape, found, _⟩ := held.node
    obtain ⟨below, live⟩ := owned.live linked.toForest found
    exact BlockTree.shape?_of_node? (grows.kept id (BlockTree.index_lt_of_shape? live))

/-- Only the node and the chunks of a package count. -/
theorem of_same {other : Package} (held : package.Held tree) (node : other.node = package.node)
    (chunks : other.chunks = package.chunks) : other.Held tree := by
  refine ⟨?_, ?_, ?_, ?_⟩
  · rw [node]
    exact held.node
  · rw [node, chunks]
    exact held.inside
  · rw [chunks]
    exact held.holds
  · rw [chunks]
    exact held.nodup

/-- A package receives a child. -/
theorem attached (held : package.Held tree) {child : NodeId} {owner node : Node}
    (attached : tree.Attached package.node child owner node final) (linked : tree.Linked)
    (fresh : ¬tree.Owns package.node child) (container : owner.kind = .container)
    (found : tree.node? package.node = some owner) : package.Held final := by
  refine held.frame linked ⟨_, BlockTree.shape?_of_some attached.above,
    Node.content_eq_container.2 container, fun id inside => List.mem_append_left _ ?_⟩
      fun id owned apart => ?_
  · rwa [BlockTree.children_of_shape? (BlockTree.shape?_of_some found)] at inside
  · refine BlockTree.shape?_of_node? (attached.others id apart ?_)
    rintro rfl
    exact fresh owned

/-- A chunk that is kept and becomes a child of the package is held as one of its chunks. -/
theorem withChunk (held : package.Held tree) (linked : tree.Linked) {chunk : Chunk} {owner : Node}
    {between : BlockTree} (found : tree.node? package.node = some owner) (container : owner.kind = .container)
    (added : ChunkAdded package.node chunk owner tree between final) (type : ChunkType) :
    (package.withChunk type tree.fresh).Held final := by
  have kept := added.kept
  have live := held.grown linked kept.grows
  have old (id : NodeId) (owned : tree.Owns package.node id) : id ≠ tree.fresh := by
    rintro rfl
    obtain ⟨shape, here, _⟩ := held.node
    obtain ⟨below, there⟩ := owned.live linked.toForest here
    rw [BlockTree.shape?_fresh] at there
    cases there
  have found' : between.node? package.node = some owner :=
    (kept.grows.kept _ (BlockTree.index_lt found)).trans found
  have orphan : ¬between.Owns package.node tree.fresh := fun owned => by
    rcases owned.up kept.grows.linked.toForest with same | ⟨parent, above, _⟩
    · exact old package.node .top same.symm
    · rw [BlockTree.parent?_eq, BlockTree.shape?, kept.node] at above
      cases above
  have behind := live.attached added.attached kept.grows.linked orphan container found'
  have chunkHolds : final.HoldsChunk tree.fresh ⟨tree.nodes.size + 1⟩ ⟨tree.nodes.size + 2⟩ := by
    have before : package.node ≠ ⟨tree.nodes.size + 1⟩ ∧ package.node ≠ ⟨tree.nodes.size + 2⟩ := by
      have low := BlockTree.index_lt found
      exact ⟨BlockTree.ne_of_index_lt (by simp only; omega), BlockTree.ne_of_index_lt (by simp only; omega)⟩
    have apart : tree.fresh ≠ ⟨tree.nodes.size + 1⟩ ∧ tree.fresh ≠ ⟨tree.nodes.size + 2⟩ :=
      ⟨BlockTree.ne_of_index_lt (by simp [BlockTree.fresh]),
        BlockTree.ne_of_index_lt (by simp [BlockTree.fresh])⟩
    have holds := kept.holds
    refine ⟨⟨_, by rw [BlockTree.shape?, added.attached.below]; rfl, rfl, rfl⟩, ?_, ?_⟩
    · rw [BlockTree.shape?_of_node? (added.attached.others _ before.1.symm apart.1.symm)]
      exact holds.head
    · rw [BlockTree.shape?_of_node? (added.attached.others _ before.2.symm apart.2.symm)]
      exact holds.body
  refine ⟨behind.node, fun other inside => ?_, fun other inside => ?_, ?_⟩
  · rcases List.mem_append.1 inside with inside | inside
    · exact behind.inside other inside
    · cases List.mem_singleton.1 inside
      change tree.fresh ∈ final.children package.node
      rw [BlockTree.children, added.attached.above]
      exact List.mem_append_right _ List.mem_cons_self
  · rcases List.mem_append.1 inside with inside | inside
    · exact behind.holds other inside
    · cases List.mem_singleton.1 inside
      exact ⟨_, _, chunkHolds⟩
  · change ((package.chunks ++ [(type, tree.fresh)]).map Prod.snd).Nodup
    rw [List.map_append, List.nodup_append]
    refine ⟨held.nodup, by simp, fun id inside other single => ?_⟩
    obtain ⟨chunk, listed, rfl⟩ := List.mem_map.1 inside
    rw [List.mem_singleton.1 single]
    exact old _ (held.owns listed)

end Held

/-- A package that is made has no chunks yet. -/
theorem Made.held {id : UInt32} {name : String} (made : Made id name tree final) :
    (Package.made tree id name).Held final where
  node := ⟨_, made.node, rfl⟩
  inside := fun _ inside => absurd inside List.not_mem_nil
  holds := fun _ inside => absurd inside List.not_mem_nil
  nodup := List.nodup_nil

end Package

variable {tree final : BlockTree} {node : NodeId} {packages : List Package} {package : Package}

/-- A container has the nodes of packages as its children, and their chunks stand below them. -/
structure Houses (tree : BlockTree) (node : NodeId) (packages : List Package) : Prop where
  linked : tree.Linked
  node : ∃ shape, tree.shape? node = some shape ∧ shape.content = .container ∧
    shape.children = packages.map Package.node
  held : ∀ package ∈ packages, package.Held tree

namespace Houses

theorem children (houses : Houses tree node packages) : tree.children node = packages.map Package.node := by
  obtain ⟨shape, found, _, children⟩ := houses.node
  rw [BlockTree.children_of_shape? found, children]

theorem owner (houses : Houses tree node packages) : ∃ owner, tree.node? node = some owner ∧
    owner.kind = .container ∧ owner.children = packages.map Package.node := by
  obtain ⟨shape, found, container, children⟩ := houses.node
  obtain ⟨owner, here, rfl⟩ := Option.map_eq_some_iff.1 found
  exact ⟨owner, here, Node.content_eq_container.1 container, children⟩

theorem parent? (houses : Houses tree node packages) (inside : package ∈ packages) :
    tree.parent? package.node = some node := by
  obtain ⟨shape, found, _, children⟩ := houses.node
  exact houses.linked.down node shape package.node found (children ▸ List.mem_map_of_mem inside)

theorem low (houses : Houses tree node packages) (inside : package ∈ packages) :
    node.index < package.node.index :=
  houses.linked.up _ _ (houses.parent? inside)

theorem nodup (houses : Houses tree node packages) : (packages.map Package.node).Nodup := by
  obtain ⟨shape, found, _, children⟩ := houses.node
  exact children ▸ houses.linked.nodup node shape found

/-- The container is not below its packages. -/
theorem not_owns (houses : Houses tree node packages) (inside : package ∈ packages) :
    ¬tree.Owns package.node node := fun owned =>
  absurd (houses.low inside) (Nat.not_lt.2 (owned.index_le houses.linked))

/-- A node without a parent is not below a package. -/
theorem not_owns_orphan (houses : Houses tree node packages) (inside : package ∈ packages) {id : NodeId}
    (orphan : tree.parent? id = none) : ¬tree.Owns package.node id := fun owned => by
  rcases owned.up houses.linked.toForest with rfl | ⟨parent, above, _⟩
  · rw [houses.parent? inside] at orphan
    cases orphan
  · rw [orphan] at above
    cases above

theorem congr (houses : Houses tree node packages) (same : final.shape? = tree.shape?) :
    Houses final node packages where
  linked := houses.linked.congr same
  node := same ▸ houses.node
  held package inside := (houses.held package inside).congr houses.linked same

theorem grown (houses : Houses tree node packages)
    (grows : BlockTree.Grows tree.nodes.size tree final) : Houses final node packages where
  linked := grows.linked
  node := by
    obtain ⟨shape, found, rest⟩ := houses.node
    exact ⟨shape, (BlockTree.shape?_of_node? (grows.kept node (BlockTree.index_lt_of_shape? found))).trans
      found, rest⟩
  held package inside := (houses.held package inside).grown houses.linked grows

/-- A package without a parent becomes the last one of the row. -/
theorem add (houses : Houses tree node packages) (held : package.Held tree) {owner below : Node}
    (found : tree.node? node = some owner) (live : tree.node? package.node = some below)
    (orphan : below.parent = none) (attached : tree.Attached node package.node owner below final) :
    Houses final node (packages ++ [package]) where
  linked := attached.linked
  node := by
    obtain ⟨owner', here, container, children⟩ := houses.owner
    cases found.symm.trans here
    refine ⟨_, BlockTree.shape?_of_some attached.above, Node.content_eq_container.2 container, ?_⟩
    rw [List.map_append, ← children]
    rfl
  held other inside := by
    have order := attached.order
    rcases List.mem_append.1 inside with inside | inside
    · refine (houses.held other inside).of_owned houses.linked fun id owned =>
        BlockTree.shape?_of_node? (attached.others id ?_ ?_)
      · rintro rfl
        exact houses.not_owns inside owned
      · rintro rfl
        refine houses.not_owns_orphan inside ?_ owned
        rw [BlockTree.parent?, live]
        exact orphan
    · cases List.mem_singleton.1 inside
      obtain ⟨shape, here, container⟩ := held.node
      rw [BlockTree.shape?_of_some live] at here
      cases here
      refine held.frame houses.linked ⟨_, BlockTree.shape?_of_some attached.below, container,
        fun id inside => ?_⟩ fun id owned apart => BlockTree.shape?_of_node? (attached.others id ?_ apart)
      · rwa [BlockTree.children_of_shape? (BlockTree.shape?_of_some live)] at inside
      · rintro rfl
        have := owned.index_le houses.linked
        omega

section

variable {before behind : List Package}

theorem mem_of_mem_rest {other : Package} (inside : other ∈ before ++ behind) :
    other ∈ before ++ package :: behind :=
  (List.mem_append.1 inside).elim (List.mem_append_left _) fun inside =>
    List.mem_append_right _ (List.mem_cons_of_mem _ inside)

/-- The nodes of other packages are not below a package. -/
theorem apart (houses : Houses tree node (before ++ package :: behind)) {other : Package}
    (inside : other ∈ before ++ behind) {id : NodeId} (owned : tree.Owns other.node id) :
    ¬tree.Owns package.node id := by
  have nodup := houses.nodup
  rw [List.map_append, List.map_cons, List.nodup_middle, List.nodup_cons] at nodup
  refine owned.apart houses.linked.toForest (houses.parent? (mem_of_mem_rest inside)) (houses.parent? (by simp)) ?_
  intro same
  refine nodup.1 ?_
  rw [← List.map_append, ← same]
  exact List.mem_map_of_mem inside

/-- A package is exchanged for another one at the same node, and only what stands below it changes. -/
theorem exchange (houses : Houses tree node (before ++ package :: behind)) {other : Package}
    (linked : final.Linked) (same : other.node = package.node) (held : other.Held final)
    (frame : ∀ id shape, tree.shape? id = some shape → ¬tree.Owns package.node id →
      final.shape? id = some shape) : Houses final node (before ++ other :: behind) where
  linked := linked
  node := by
    obtain ⟨shape, found, container, children⟩ := houses.node
    refine ⟨shape, frame node shape found (houses.not_owns (by simp)), container, ?_⟩
    rw [children, List.map_append, List.map_append, List.map_cons, List.map_cons, same]
  held third inside := by
    by_cases equal : third = other
    · exact equal ▸ held
    · have member : third ∈ before ++ behind := by
        rcases List.mem_append.1 inside with inside | inside
        · exact List.mem_append_left _ inside
        · rcases List.mem_cons.1 inside with here | inside
          · exact absurd here equal
          · exact List.mem_append_right _ inside
      have held := houses.held third (mem_of_mem_rest member)
      obtain ⟨shape, found, _⟩ := held.node
      refine held.of_owned houses.linked fun id owned => ?_
      obtain ⟨below, live⟩ := owned.live houses.linked.toForest found
      rw [frame id below live (houses.apart member owned), live]

/-- Only the nodes and the chunks of packages count. -/
theorem replace (houses : Houses tree node (before ++ package :: behind)) {other : Package}
    (same : other.node = package.node) (chunks : other.chunks = package.chunks) :
    Houses tree node (before ++ other :: behind) :=
  houses.exchange houses.linked same ((houses.held package (by simp)).of_same same chunks)
    fun _ _ found _ => found

/-- A chunk is added to a package. -/
theorem withChunk (houses : Houses tree node (before ++ package :: behind)) {chunk : Chunk} {owner : Node}
    {between : BlockTree} (found : tree.node? package.node = some owner)
    (container : owner.kind = .container)
    (added : Package.ChunkAdded package.node chunk owner tree between final) :
    Houses final node (before ++ package.withChunk chunk.header.type tree.fresh :: behind) := by
  refine houses.exchange added.attached.linked rfl
    ((houses.held package (by simp)).withChunk houses.linked found container added _)
    fun id shape live apart => ?_
  have old := BlockTree.index_lt_of_shape? live
  rw [← live]
  refine BlockTree.shape?_of_node? ((added.attached.others id ?_ (BlockTree.ne_of_index_lt old)).trans
    (added.kept.grows.kept id old))
  rintro rfl
  exact apart .top

/-- A package is removed. -/
theorem remove (houses : Houses tree node (before ++ package :: behind))
    (removes : tree.Removes node package.node final) : Houses final node (before ++ behind) where
  linked := removes.linked houses.linked
  node := by
    obtain ⟨owner, found, container, children⟩ := houses.owner
    have here := removes.owner
    rw [found, Option.map_some] at here
    refine ⟨_, BlockTree.shape?_of_some here, Node.content_eq_container.2 container, ?_⟩
    have nodup := houses.nodup
    rw [List.map_append, List.map_cons, List.nodup_middle, List.nodup_cons, List.mem_append, not_or] at nodup
    have stays {row : List NodeId} (absent : package.node ∉ row) : row.filter (· ≠ package.node) = row :=
      List.filter_eq_self.2 fun id inside => by
        simp only [ne_eq, decide_eq_true_eq]
        rintro rfl
        exact absent inside
    change owner.children.filter (· ≠ package.node) = _
    rw [children, List.map_append, List.map_cons, List.filter_append, stays nodup.1.1,
      List.filter_cons_of_neg (by simp), stays nodup.1.2, List.map_append]
  held other inside := by
    have member := @mem_of_mem_rest package before behind other inside
    refine (houses.held other member).of_owned houses.linked fun id owned =>
      BlockTree.shape?_of_node? (removes.kept id ?_ (houses.apart inside owned))
    rintro rfl
    exact houses.not_owns member owned

end

/-- The packages may be brought into any order. -/
theorem sort (houses : Houses tree node packages) {order : List NodeId → List NodeId}
    (perm : ∀ children, (order children).Perm children) {others : List Package}
    (same : order (packages.map Package.node) = others.map Package.node)
    (members : ∀ package ∈ others, package ∈ packages) :
    Houses (tree.modifyNode node fun node => { node with children := order node.children }) node others where
  linked := houses.linked.reorder perm
  node := by
    obtain ⟨owner, found, container, children⟩ := houses.owner
    have here : (tree.modifyNode node fun node => { node with children := order node.children }).node? node =
        some { owner with children := order owner.children } := by
      rw [BlockTree.node?_modifyNode, if_pos rfl, found]
      rfl
    refine ⟨_, BlockTree.shape?_of_some here, Node.content_eq_container.2 container, ?_⟩
    change order owner.children = _
    rw [children, same]
  held other inside := by
    refine (houses.held other (members other inside)).of_owned houses.linked fun id owned =>
      BlockTree.shape?_of_node? ?_
    rw [BlockTree.node?_modifyNode, if_neg]
    rintro rfl
    exact houses.not_owns (members other inside) owned

end Houses
end DexArsc.Resource
