/-
Packages in a block tree: the nodes of a new package, and the chunks that it owns.
-/

import DexArsc.Proofs.Resource.Chunk
import DexArsc.Resource.Package

namespace DexArsc.Resource.Package

variable {tree final : BlockTree} {package : Package}

/-- A container with a header whose size is patched. -/
structure HeaderAdded (tag : UInt32) (header : Bytes) (tree final : BlockTree) : Prop where
  grows : BlockTree.Grows tree.nodes.size tree final
  size : final.nodes.size = tree.nodes.size + 2
  node : final.node? tree.fresh = some {
    kind := .container
    tag
    children := [⟨tree.nodes.size + 1⟩]
    patches := [.size (.word ⟨tree.nodes.size + 1⟩ 4)] }
  header : final.node? ⟨tree.nodes.size + 1⟩ = some {
    kind := .leaf header
    tag
    parent := some tree.fresh
    length := UInt64.ofNat header.size }

theorem newNode_ok (linked : tree.Linked) (header : Bytes) : ∃ final,
    newNode header tree = .ok (tree.fresh, ⟨tree.nodes.size + 1⟩) final ∧
      HeaderAdded ChunkType.package.tag header tree final := by
  obtain ⟨first, run₁, node⟩ := linked.newContainer ChunkType.package.tag
  obtain ⟨second, run₂, leaf⟩ := node.linked.newLeaf ChunkType.package.tag header
  have leafId : first.fresh = ⟨tree.nodes.size + 1⟩ := by rw [BlockTree.fresh, node.size]
  have order : tree.fresh.index < first.fresh.index := by simp [BlockTree.fresh, node.size]
  have different := BlockTree.ne_of_index_lt order
  obtain ⟨third, run₃, child⟩ := leaf.linked.addChild ((leaf.others _ different).trans node.fresh) rfl
    leaf.fresh rfl order
  obtain ⟨final, run₄, patched⟩ := child.linked.addPatch child.above (.size (.word first.fresh 4))
  refine ⟨final, ?_, ?_⟩
  · unfold newNode
    rw [Step.bind_ok run₁, Step.bind_ok run₂, Step.bind_ok run₃, Step.bind_ok run₄, leafId]
    rfl
  · exact {
      grows := ((node.grows.trans (leaf.grows.anti (Nat.le_of_lt order))).trans
        (child.grows (Nat.le_refl _))).trans (patched.grows (Nat.le_refl _))
      size := by rw [patched.size, child.size, leaf.size, node.size]
      node := by rw [patched.here, ← leafId]; rfl
      header := by rw [← leafId, patched.others _ different.symm, child.below] }

/-- A leaf for a pool, of which a container knows the offset. -/
structure PoolLeafAdded (package : Package) (which : PackagePool) (chunk : Bytes) (owner : Node)
    (tree final : BlockTree) : Prop where
  linked : final.Linked
  size : final.nodes.size = tree.nodes.size + 1
  owner : final.node? package.node = some { owner with
    patches := owner.patches ++
      [.relativeOffset tree.fresh (.word package.header (PackagePool.position which))] }
  leaf : final.node? tree.fresh = some {
    kind := .leaf chunk
    tag := ChunkType.stringPool.tag
    length := UInt64.ofNat chunk.size }
  others : ∀ id, id ≠ package.node → id ≠ tree.fresh → final.node? id = tree.node? id

theorem newPoolLeaf_ok (linked : tree.Linked) (which : PackagePool) (chunk : Bytes) {owner : Node}
    (found : tree.node? package.node = some owner) : ∃ final,
      newPoolLeaf package which chunk tree = .ok tree.fresh final ∧
        PoolLeafAdded package which chunk owner tree final := by
  have different : package.node ≠ tree.fresh := BlockTree.ne_of_index_lt (BlockTree.index_lt found)
  obtain ⟨first, run₁, leaf⟩ := linked.newLeaf ChunkType.stringPool.tag chunk
  obtain ⟨final, run₂, patched⟩ := leaf.linked.addPatch ((leaf.others _ different).trans found)
    (.relativeOffset tree.fresh (.word package.header (PackagePool.position which)))
  refine ⟨final, ?_, ?_⟩
  · unfold newPoolLeaf
    rw [Step.bind_ok run₁, Step.bind_ok run₂]
    rfl
  · exact {
      linked := patched.linked
      size := patched.size.trans leaf.size
      owner := patched.here
      leaf := (patched.others _ different.symm).trans leaf.fresh
      others := fun id notNode notFresh => (patched.others id notNode).trans (leaf.others id notFresh) }

/-- A pool is added behind the children of a package. -/
structure PoolAdded (package : Package) (which : PackagePool) (chunk : Bytes) (owner : Node)
    (tree final : BlockTree) : Prop where
  linked : final.Linked
  size : final.nodes.size = tree.nodes.size + 1
  owner : final.node? package.node = some { owner with
    children := owner.children ++ [tree.fresh]
    patches := owner.patches ++
      [.relativeOffset tree.fresh (.word package.header (PackagePool.position which))] }
  leaf : final.node? tree.fresh = some {
    kind := .leaf chunk
    tag := ChunkType.stringPool.tag
    parent := some package.node
    length := UInt64.ofNat chunk.size }
  others : ∀ id, id ≠ package.node → id ≠ tree.fresh → final.node? id = tree.node? id

theorem PoolAdded.grows {which : PackagePool} {chunk : Bytes} {owner : Node} {start : Nat}
    (added : PoolAdded package which chunk owner tree final) (bound : start ≤ package.node.index)
    (order : package.node.index < tree.nodes.size) : BlockTree.Grows start tree final :=
  ⟨added.linked, by rw [added.size]; exact Nat.le_succ _, fun id old =>
    added.others id (BlockTree.ne_of_index_lt (by omega)) (BlockTree.ne_of_index_lt (by
      change id.index < tree.nodes.size
      omega))⟩

theorem attachPool_ok (linked : tree.Linked) (which : PackagePool) (chunk : Bytes) {owner : Node}
    (found : tree.node? package.node = some owner) (container : owner.kind = .container) :
    ∃ between final, newPoolLeaf package which chunk tree = .ok tree.fresh between ∧
      BlockTree.addChild package.node tree.fresh between = .ok () final ∧
        PoolAdded package which chunk owner tree final := by
  have order : package.node.index < tree.fresh.index := BlockTree.index_lt found
  obtain ⟨between, run, leaf⟩ := newPoolLeaf_ok linked which chunk found
  obtain ⟨final, run', child⟩ := leaf.linked.addChild leaf.owner container leaf.leaf rfl order
  exact ⟨between, final, run, run', {
    linked := child.linked
    size := child.size.trans leaf.size
    owner := child.above
    leaf := child.below
    others := fun id notNode notFresh =>
      (child.others id notNode notFresh).trans (leaf.others id notNode notFresh) }⟩

theorem addPool_ok (linked : tree.Linked) (which : PackagePool) {owner : Node}
    (found : tree.node? package.node = some owner) (container : owner.kind = .container) : ∃ final,
      package.addPool which tree = .ok
        (package.withSlot which { pool := .empty .utf8, node := tree.fresh }) final ∧
          PoolAdded package which (StringPool.empty .utf8).toChunk.toArray owner tree final := by
  obtain ⟨between, final, run, run', added⟩ := attachPool_ok linked which
    (StringPool.empty .utf8).toChunk.toArray found container
  refine ⟨final, ?_, added⟩
  unfold addPool
  rw [Step.bind_ok run, Step.bind_ok run']
  rfl

/-- The nodes that a refresh writes: the header and the leaves of the pools. -/
def Writes (package : Package) (id : NodeId) : Prop :=
  id = package.header ∨ ∃ which slot, package.slot? which = some slot ∧ id = slot.node

/-- The header with the id and the name. -/
def headerOf (package : Package) (header : Bytes) : Bytes :=
  (header.putWord32 8 package.id).overwrite namePosition (encodeName package.name)

theorem refreshPool_leads {inside : NodeId → Prop} (slot : Option PoolSlot)
    (here : ∀ found, slot = some found → inside found.node) (tree : BlockTree) :
    (refreshPool slot).Leads (BlockTree.Rewritten inside) tree := by
  cases slot with
  | none => exact .pure (.refl _ tree) _
  | some slot =>
      unfold refreshPool
      simp only
      split
      · exact BlockTree.Rewritten.setLeaf (here slot rfl) _ tree
      · exact .pure (.refl _ tree) _

/-- Wherever a refresh ends, it has rewritten the header and the pools at most. -/
theorem refresh_leads (package : Package) (tree : BlockTree) :
    package.refresh.Leads (BlockTree.Rewritten package.Writes) tree := by
  unfold refresh
  exact .bind .trans (BlockTree.Rewritten.modifyLeaf (.inl rfl) _ tree) fun _ between _ =>
    .bind .trans (refreshPool_leads _ (fun slot found => .inr ⟨.types, slot, found, rfl⟩) between)
      fun _ between _ => refreshPool_leads _ (fun slot found => .inr ⟨.keys, slot, found, rfl⟩) between

theorem refreshPool_ok {slot : Option PoolSlot}
    (leaves : ∀ found, slot = some found → ∃ bytes, tree.leaf found.node = .ok bytes) : ∃ final,
      refreshPool slot tree = .ok () final ∧
        BlockTree.Rewritten (fun id => ∃ found, slot = some found ∧ id = found.node) tree final ∧
        ∀ found, slot = some found → found.pool.modified = true →
          final.leaf found.node = .ok found.pool.toChunk.toArray := by
  cases slot with
  | none => exact ⟨tree, rfl, .refl _ tree, fun _ found => by cases found⟩
  | some slot =>
      obtain ⟨old, leaf⟩ := leaves slot rfl
      unfold refreshPool
      simp only
      split
      · obtain ⟨final, run, rewritten, written⟩ := @BlockTree.setLeaf_rewrites tree
          (fun id => ∃ found, some slot = some found ∧ id = found.node) slot.node old leaf ⟨slot, rfl, rfl⟩
          slot.pool.toChunk.toArray
        refine ⟨final, run, rewritten, fun other same _ => ?_⟩
        cases same
        exact written
      · rename_i unmodified
        refine ⟨tree, rfl, .refl _ tree, fun other same modified => ?_⟩
        cases same
        exact absurd modified unmodified

/-- A package is refreshed: the header has the id and the name, and modified pools are written. -/
structure Refreshed (package : Package) (header : Bytes) (tree final : BlockTree) : Prop where
  rewritten : BlockTree.Rewritten package.Writes tree final
  header : final.leaf package.header = .ok (package.headerOf header)
  pools : ∀ which slot, package.slot? which = some slot → slot.pool.modified = true →
    final.leaf slot.node = .ok slot.pool.toChunk.toArray

/-- The header and the pools of a package have leaves of their own. -/
structure Leaves (package : Package) (tree : BlockTree) : Prop where
  header : ∃ bytes, tree.leaf package.header = .ok bytes
  pools : ∀ which slot, package.slot? which = some slot →
    slot.node ≠ package.header ∧ ∃ bytes, tree.leaf slot.node = .ok bytes
  apart : ∀ types keys, package.typeStrings = some types → package.keyStrings = some keys →
    types.node ≠ keys.node

theorem refresh_ok (leaves : package.Leaves tree) {header : Bytes}
    (found : tree.leaf package.header = .ok header) :
    ∃ final, package.refresh tree = .ok () final ∧ Refreshed package header tree final := by
  obtain ⟨first, run₁, put, written⟩ := @BlockTree.modifyLeaf_rewrites tree (· = package.header) _ _ found
    rfl package.headerOf
  obtain ⟨second, run₂, types, typed⟩ := @refreshPool_ok first package.typeStrings fun slot listed => by
    obtain ⟨_, bytes, leaf⟩ := leaves.pools .types slot listed
    exact put.leaf leaf
  obtain ⟨final, run₃, keys, keyed⟩ := @refreshPool_ok second package.keyStrings fun slot listed => by
    obtain ⟨_, bytes, leaf⟩ := leaves.pools .keys slot listed
    obtain ⟨_, leaf⟩ := put.leaf leaf
    exact types.leaf leaf
  refine ⟨final, ?_, ?_⟩
  · have whole : (do
        BlockTree.modifyLeaf package.header package.headerOf
        refreshPool package.typeStrings
        refreshPool package.keyStrings) tree = .ok () final := by
      rw [Step.bind_ok run₁, Step.bind_ok run₂, run₃]
    exact whole
  · have notTypes : ¬∃ slot, package.typeStrings = some slot ∧ package.header = slot.node :=
      fun ⟨slot, listed, same⟩ => (leaves.pools .types slot listed).1 same.symm
    have notKeys : ¬∃ slot, package.keyStrings = some slot ∧ package.header = slot.node :=
      fun ⟨slot, listed, same⟩ => (leaves.pools .keys slot listed).1 same.symm
    exact {
      rewritten := (put.mono fun _ => .inl).trans ((types.mono fun _ ⟨slot, listed, same⟩ =>
        .inr ⟨.types, slot, listed, same⟩).trans (keys.mono fun _ ⟨slot, listed, same⟩ =>
          .inr ⟨.keys, slot, listed, same⟩))
      header := (keys.leaf_eq notKeys).trans ((types.leaf_eq notTypes).trans written)
      pools := fun which slot listed modified => by
        cases which with
        | types =>
            refine (keys.leaf_eq ?_).trans (typed slot listed modified)
            rintro ⟨other, there, same⟩
            exact leaves.apart slot other listed there same
        | keys => exact keyed slot listed modified }

/-- The header of a new package, without id and name. -/
def newHeader : Bytes :=
  (Bytes.ofWord16 ChunkType.package.code ++ Bytes.ofWord16 (UInt16.ofNat headerSize) ++
    List.replicate (headerSize - 4) (0 : UInt8)).toArray

@[simp] theorem size_newHeader : newHeader.size = headerSize := by
  rw [newHeader, List.size_toArray, List.length_append, List.length_append, List.length_replicate]
  rfl

/-- The package that is made in a tree: its nodes are the next ones. -/
def made (tree : BlockTree) (id : UInt32) (name : String) : Package where
  id
  name
  node := tree.fresh
  header := ⟨tree.nodes.size + 1⟩
  typeStrings := some { pool := .empty .utf8, node := ⟨tree.nodes.size + 2⟩ }
  keyStrings := some { pool := .empty .utf8, node := ⟨tree.nodes.size + 3⟩ }

/-- The shape of a package's node: a header, the two pools and the chunks. -/
def nodeShape (package : Package) (types keys : NodeId) (parent : Option NodeId) : Shape where
  content := .container
  parent
  children := package.header :: types :: keys :: package.chunks.map Prod.snd
  patches := [.size (.word package.header 4),
    .relativeOffset types (.word package.header (PackagePool.position .types)),
    .relativeOffset keys (.word package.header (PackagePool.position .keys))]

/-- A package is made of four fresh nodes. -/
structure Made (id : UInt32) (name : String) (tree final : BlockTree) : Prop where
  grows : BlockTree.Grows tree.nodes.size tree final
  size : final.nodes.size = tree.nodes.size + 4
  node : final.shape? tree.fresh = some
    ((made tree id name).nodeShape ⟨tree.nodes.size + 2⟩ ⟨tree.nodes.size + 3⟩ none)
  leaves : ∀ index, tree.nodes.size < index → index < tree.nodes.size + 4 →
    final.shape? ⟨index⟩ = some { content := .leaf, parent := some tree.fresh }
  header : final.leaf ⟨tree.nodes.size + 1⟩ = .ok ((made tree id name).headerOf newHeader)

theorem make_ok (linked : tree.Linked) (id : UInt32) {name : String} (fits : checkName name = .ok ()) :
    ∃ final, make id name tree = .ok (made tree id name) final ∧ Made id name tree final := by
  obtain ⟨first, run₁, node⟩ := newNode_ok linked newHeader
  let package : Package := { id, name, node := tree.fresh, header := ⟨tree.nodes.size + 1⟩ }
  obtain ⟨second, run₂, types⟩ := @addPool_ok _ package node.grows.linked .types _ node.node rfl
  have typesId : first.fresh = ⟨tree.nodes.size + 2⟩ := by rw [BlockTree.fresh, node.size]
  obtain ⟨third, run₃, keys⟩ := @addPool_ok _ (package.withSlot .types
    { pool := .empty .utf8, node := first.fresh }) types.linked .keys _ types.owner rfl
  have keysId : second.fresh = ⟨tree.nodes.size + 3⟩ := by rw [BlockTree.fresh, types.size, node.size]
  have distinct {first second : Nat} (different : first ≠ second) : (⟨first⟩ : NodeId) ≠ ⟨second⟩ :=
    fun same => different (NodeId.eq_iff.1 same)
  have fresh : tree.fresh = ⟨tree.nodes.size⟩ := rfl
  have atHeader : third.node? ⟨tree.nodes.size + 1⟩ = _ :=
    (keys.others _ (distinct (by omega)) (keysId ▸ distinct (by omega))).trans
      ((types.others _ (distinct (by omega)) (typesId ▸ distinct (by omega))).trans node.header)
  have atTypes : third.node? ⟨tree.nodes.size + 2⟩ = _ :=
    (keys.others _ (distinct (by omega)) (keysId ▸ distinct (by omega))).trans (typesId ▸ types.leaf)
  have atKeys : third.node? ⟨tree.nodes.size + 3⟩ = _ := keysId ▸ keys.leaf
  have whole : (package.withSlot .types { pool := .empty .utf8, node := first.fresh }).withSlot .keys
      { pool := .empty .utf8, node := second.fresh } = made tree id name := by
    rw [typesId, keysId]
    rfl
  have header : third.leaf ⟨tree.nodes.size + 1⟩ = .ok newHeader :=
    BlockTree.leaf_eq_ok.2 ⟨_, atHeader, rfl⟩
  have leaves : (made tree id name).Leaves third := {
    header := ⟨_, header⟩
    pools := fun which slot listed => by
      cases which with
      | types =>
          cases listed
          exact ⟨distinct (by omega), _, BlockTree.leaf_eq_ok.2 ⟨_, atTypes, rfl⟩⟩
      | keys =>
          cases listed
          exact ⟨distinct (by omega), _, BlockTree.leaf_eq_ok.2 ⟨_, atKeys, rfl⟩⟩
    apart := fun types keys typed keyed => by
      cases typed
      cases keyed
      exact distinct (by omega) }
  obtain ⟨final, run₄, refreshed⟩ := refresh_ok leaves header
  refine ⟨final, ?_, ?_⟩
  · unfold make
    rw [fits]
    exact (Step.bind_ok run₁).trans ((Step.bind_ok run₂).trans ((Step.bind_ok run₃).trans (by
      rw [whole, Step.bind_ok run₄]
      rfl)))
  · have index : package.node.index = tree.nodes.size := rfl
    have before : package.node.index < first.nodes.size := by rw [node.size]; omega
    have before' : package.node.index < second.nodes.size := by rw [types.size, node.size]; omega
    have grown : BlockTree.Grows tree.nodes.size tree third :=
      (node.grows.trans (types.grows (Nat.le_refl _) before)).trans (keys.grows (Nat.le_refl _) before')
    have rewritten := refreshed.rewritten
    have atNode : third.node? tree.fresh = _ := keys.owner
    exact {
      grows := grown.trans (rewritten.grows grown.linked fun id here => by
        rcases here with rfl | ⟨which, slot, listed, rfl⟩
        · exact Nat.le_succ _
        · cases which <;> cases listed <;> exact Nat.le_add_right ..)
      size := by rw [rewritten.size, keys.size, types.size, node.size]
      node := by
        rw [rewritten.shapes, BlockTree.shape?, atNode, typesId, keysId]
        rfl
      leaves := fun index low high => by
        rw [rewritten.shapes, BlockTree.shape?]
        rcases (by omega : index = tree.nodes.size + 1 ∨ index = tree.nodes.size + 2 ∨
          index = tree.nodes.size + 3) with rfl | rfl | rfl
        · rw [atHeader]
          rfl
        · rw [atTypes]
          rfl
        · rw [atKeys]
          rfl
      header := refreshed.header }

/-- The package with one more chunk. -/
def withChunk (package : Package) (type : ChunkType) (node : NodeId) : Package :=
  { package with chunks := package.chunks ++ [(type, node)] }

/-- A chunk is kept and becomes the last child of a package's node. -/
structure ChunkAdded (parent : NodeId) (chunk : Chunk) (owner : Node) (tree between final : BlockTree) :
    Prop where
  kept : Chunk.Kept chunk tree between
  attached : between.Attached parent tree.fresh owner (chunk.container tree) final

theorem addChunk_ok (linked : tree.Linked) {parent : NodeId} {owner : Node}
    (found : tree.node? parent = some owner) (container : owner.kind = .container) (chunk : Chunk) :
    ∃ between final, chunk.keep tree = .ok tree.fresh between ∧
      BlockTree.addChild parent tree.fresh between = .ok () final ∧
        ChunkAdded parent chunk owner tree between final := by
  have order : parent.index < tree.nodes.size := BlockTree.index_lt found
  obtain ⟨between, run, kept⟩ := Chunk.keep_ok chunk linked
  obtain ⟨final, run', attached⟩ := kept.grows.linked.addChild ((kept.grows.kept _ order).trans found)
    container kept.node rfl order
  exact ⟨between, final, run, run', kept, attached⟩

/-- A chunk that a package accepts: all the bytes, and not of a type with a place of its own. -/
structure Pushable (bytes : Bytes) (chunk : Chunk) : Prop where
  read : ∃ cursor, Chunk.read { data := bytes } = .ok chunk cursor ∧ cursor.remaining = 0
  type : ¬(chunk.header.type = .table ∨ chunk.header.type = .package ∨ chunk.header.type = .stringPool)

/-- Where a chunk is added to a package, or refused. -/
theorem pushChunk_ensures (linked : tree.Linked) {owner : Node} (found : tree.node? package.node = some owner)
    (container : owner.kind = .container) (bytes : Bytes) :
    (package.pushChunk bytes).Ensures tree
      (fun result final => ∃ chunk, Pushable bytes chunk ∧
        result = (tree.fresh, package.withChunk chunk.header.type tree.fresh) ∧
          ∃ between, ChunkAdded package.node chunk owner tree between final)
      (fun final => final = tree) := by
  unfold pushChunk
  cases read : Chunk.read { data := bytes } with
  | error fault cursor => exact .of_error rfl rfl
  | ok chunk cursor =>
      obtain ⟨between, final, keep, add, added⟩ := addChunk_ok linked found container chunk
      refine .behind (Step.pure_apply _ _) ?_
      by_cases rest : cursor.remaining = 0
      · by_cases foreign : chunk.header.type = .table ∨ chunk.header.type = .package ∨
            chunk.header.type = .stringPool
        · simp only [Step.Ensures, rest, ne_eq, not_true, if_false, if_pos foreign]
          exact rfl
        · refine .of_ok ?_ ⟨chunk, ⟨⟨cursor, read, rest⟩, foreign⟩, rfl, between, added⟩
          simp only [rest, ne_eq, not_true, if_false, if_neg foreign]
          exact (Step.bind_ok keep).trans ((Step.bind_ok add).trans rfl)
      · simp only [Step.Ensures, ne_eq, rest, not_false_iff, if_true]
        exact rfl

end DexArsc.Resource.Package
