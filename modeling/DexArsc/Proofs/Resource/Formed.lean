/-
Tables that are built from an empty one. Their trees have a fixed form: a header, the global strings and the packages,
each of them a header, two pools and chunks that are kept. Every edit keeps this form.
-/

import DexArsc.Proofs.BlockTree.Fillable
import DexArsc.Proofs.Resource.PoolWritten
import DexArsc.Proofs.Resource.Run
import DexArsc.Proofs.Resource.TableStored

namespace DexArsc

namespace BlockTree

open Resource

variable {tree final : BlockTree}

/-- The stamp of a chunk's header: the header is long enough, names a type and tells its own length. -/
structure HeaderOf (type : ChunkType) (stamp : Nat × List UInt8) : Prop where
  least : minHeaderSize ≤ stamp.1
  type : ChunkType.ofCode (Bytes.half stamp.2 0) = type
  size : (Bytes.half stamp.2 2).toNat = stamp.1

/-- A node keeps a chunk of a type: a header, whose size field is patched, and a body. -/
structure KeepsChunk (tree : BlockTree) (type : ChunkType) (node head body : NodeId) : Prop where
  container : tree.form? node = some {
    content := .container
    children := [head, body]
    patches := [.size (.word head 4)] }
  front : tree.form? head = some .leaf
  rest : tree.form? body = some .leaf
  stamp : ∃ stamp, tree.stamp? head = some stamp ∧ HeaderOf type stamp

/-- A chunk is kept wherever its nodes are alike. -/
theorem KeepsChunk.frame {type : ChunkType} {node head body : NodeId} (keeps : tree.KeepsChunk type node head body)
    (alike : ∀ id, tree.Owns node id → tree.Alike final id) : final.KeepsChunk type node head body := by
  have children := children_of_form? keeps.container
  have first := alike head (Owns.top.of_mem_children (children ▸ List.mem_cons_self))
  obtain ⟨stamp, found, header⟩ := keeps.stamp
  exact {
    container := (alike node .top).1.trans keeps.container
    front := first.1.trans keeps.front
    rest := (alike body (Owns.top.of_mem_children (by simp [children]))).1.trans keeps.rest
    stamp := ⟨stamp, (first.2 ⟨node, [body], children⟩).trans found, header⟩ }

/-- The children of a chunk that is kept are leaves. -/
theorem KeepsChunk.leaf_of_mem {type : ChunkType} {node head body id : NodeId}
    (keeps : tree.KeepsChunk type node head body) (inside : id ∈ tree.children node) : tree.form? id = some .leaf := by
  rw [children_of_form? keeps.container] at inside
  rcases List.mem_pair.1 inside with rfl | rfl
  · exact keeps.front
  · exact keeps.rest

/-- The patches below a node are those of the forms. -/
theorem mem_patches_of_form? {top id : NodeId} {patch : Patch} (inside : (id, patch) ∈ tree.patchesBelow top)
    {form : Form} (found : tree.form? id = some form) : patch ∈ form.patches := by
  obtain ⟨_, node, live, listed⟩ := mem_of_mem_patchesTo inside
  obtain ⟨_, here, _, _, same⟩ := node_of_form? found
  cases here.symm.trans live
  exact same ▸ listed

/-- A chunk that is kept writes its two leaves. -/
theorem KeepsChunk.toBytes {type : Resource.ChunkType} {node head body : NodeId}
    (keeps : tree.KeepsChunk type node head body) (forest : tree.Forest) : ∃ front rest,
      tree.leaf head = .ok front ∧ tree.leaf body = .ok rest ∧ tree.toBytes node = front.toList ++ rest.toList := by
  obtain ⟨_, front, _, _, leaf, _⟩ := leaf_of_form? keeps.front
  obtain ⟨_, rest, _, _, leaf', _⟩ := leaf_of_form? keeps.rest
  refine ⟨front, rest, leaf, leaf', ?_⟩
  rw [forest.toBytes_of_form? keeps.container rfl, List.flatMap_cons, List.flatMap_singleton, toBytes_of_leaf leaf,
    toBytes_of_leaf leaf']

/-- A chunk that is kept writes the same wherever its nodes are alike and its leaves the same. -/
theorem KeepsChunk.toBytes_eq {type : Resource.ChunkType} {node head body : NodeId}
    (keeps : tree.KeepsChunk type node head body) (forest : tree.Forest) (forest' : final.Forest)
    (alike : ∀ id, tree.Owns node id → tree.Alike final id)
    (same : ∀ id ∈ tree.children node, final.leaf id = tree.leaf id) : final.toBytes node = tree.toBytes node := by
  have children := children_of_form? keeps.container
  obtain ⟨front, rest, first, second, bytes⟩ := keeps.toBytes forest
  obtain ⟨front', rest', first', second', bytes'⟩ := (keeps.frame alike).toBytes forest'
  rw [same head (by simp [children]), first] at first'
  rw [same body (by simp [children]), second] at second'
  cases first'
  cases second'
  exact bytes'.trans bytes.symm

/-- A chunk that is kept and refreshed is a chunk of its type. -/
theorem KeepsChunk.isChunk {top : NodeId} {type : Resource.ChunkType}
    {node head body : NodeId} (keeps : tree.KeepsChunk type node head body) (forest : tree.Forest)
    (current : tree.Current top) (owned : tree.Owns top node) : Resource.IsChunk (tree.toBytes node) ∧
      Resource.ChunkType.ofCode (Bytes.half (tree.toBytes node) 0) = type := by
  obtain ⟨stamp, found, header⟩ := keeps.stamp
  obtain ⟨front, rest, first, _, bytes⟩ := keeps.toBytes forest
  cases (stamp?_of_leaf first).symm.trans found
  have least : 8 ≤ front.toList.length := header.least
  have half (position : Nat) (inside : position + 2 ≤ 4) :
      Bytes.half (tree.toBytes node) position = Bytes.half front.stamp.2 position := by
    rw [bytes, Bytes.half_append (by omega), Bytes.stamp, Bytes.half_take _ inside]
  have headerSize : (Bytes.half (tree.toBytes node) 2).toNat = front.toList.length := by
    rw [half 2 (by decide)]
    exact header.size
  have word := current.word owned keeps.container List.mem_cons_self rfl first
  refine ⟨⟨headerSize ▸ least, ?_, ?_⟩, by rw [half 0 (by decide)]; exact header.type⟩
  · rw [headerSize, bytes, List.length_append]
    exact Nat.le_add_right ..
  · rw [← word, bytes, Bytes.word_append (by omega)]

/-- The size field of a chunk can be filled, unless the chunk is too large for a word. -/
theorem KeepsChunk.fillable {type : Resource.ChunkType} {node head body : NodeId}
    (keeps : tree.KeepsChunk type node head body) (small : (tree.toBytes node).length < UInt32.size) :
    tree.FillableApart node := by
  obtain ⟨stamp, found, header⟩ := keeps.stamp
  obtain ⟨front, leaf, rfl⟩ := leaf_of_stamp? found
  refine .container keeps.container rfl (fun child inside => ?_) (fun patch inside => ?_) (.cons (by simp) .nil)
  · simp only [List.mem_cons, List.not_mem_nil, or_false] at inside
    rcases inside with rfl | rfl
    · exact .leaf keeps.front
    · exact .leaf keeps.rest
  · cases List.mem_singleton.1 inside
    refine .word (children_of_form? keeps.container) leaf rfl ?_ (by rintro _ ⟨⟩) small rfl
    exact Nat.le_trans (by decide) header.least

end BlockTree

namespace Resource

variable {tree between final : BlockTree}

/-- The stamp of a chunk's header. -/
theorem IsChunk.headerOf {bytes : List UInt8} (isChunk : IsChunk bytes) (start : Nat) :
    BlockTree.HeaderOf (Chunk.ofBytes start bytes).header.type (Chunk.ofBytes start bytes).head.stamp := by
  have least := isChunk.least
  have within := isChunk.within
  have head : (Chunk.ofBytes start bytes).head.toList = bytes.take (Bytes.half bytes 2).toNat := by
    rw [Chunk.head, Array.toList_extract, List.extract]
    rfl
  have cut : (Chunk.ofBytes start bytes).head.stamp = ((Bytes.half bytes 2).toNat, bytes.take 4) := by
    unfold minHeaderSize at least
    refine Prod.ext ?_ ?_
    · rw [Bytes.stamp, ← Array.length_toList, head, List.length_take, Nat.min_eq_left within]
    · rw [Bytes.stamp, head, List.take_take, Nat.min_eq_left (by omega)]
  have long : 4 ≤ bytes.length := by
    unfold minHeaderSize at least
    omega
  have half (position : Nat) (inside : position + 2 ≤ 4) :
      Bytes.half (bytes.take 4) position = Bytes.half bytes position := by
    rw [← Bytes.half_append (by rw [List.length_take]; omega) (bytes.drop 4), List.take_append_drop]
  rw [cut]
  exact ⟨least, by rw [half 0 (by decide)]; rfl, by rw [half 2 (by decide)]⟩

/-- A chunk that is kept in fresh nodes. -/
theorem Chunk.Kept.keeps {bytes : List UInt8} {start : Nat} (kept : Chunk.Kept (.ofBytes start bytes) tree final)
    (isChunk : IsChunk bytes) : final.KeepsChunk (Chunk.ofBytes start bytes).header.type tree.fresh
      ⟨tree.nodes.size + 1⟩ ⟨tree.nodes.size + 2⟩ where
  container := by
    rw [BlockTree.form?, BlockTree.shape?, kept.node]
    rfl
  front := by
    rw [BlockTree.form?, BlockTree.shape?, kept.head]
    rfl
  rest := by
    rw [BlockTree.form?, BlockTree.shape?, kept.body]
    rfl
  stamp := ⟨_, BlockTree.stamp?_of_leaf (BlockTree.leaf_eq_ok.2 ⟨_, kept.head, rfl⟩), isChunk.headerOf start⟩

namespace Package

variable {package image : Package} {types keys : PoolSlot}

/-- The form of a package's node: a header, the two pools and the chunks. -/
def nodeForm (package : Package) (types keys : NodeId) : BlockTree.Form where
  content := .container
  children := package.header :: types :: keys :: package.chunks.map Prod.snd
  patches := [.size (.word package.header 4),
    .relativeOffset types (.word package.header (PackagePool.position .types)),
    .relativeOffset keys (.word package.header (PackagePool.position .keys))]

theorem low_of_nodeForm {types keys : NodeId} {patch : Patch} (inside : patch ∈ (package.nodeForm types keys).patches) :
    4 ≤ patch.field.position := by
  simp only [nodeForm, List.mem_cons, List.not_mem_nil, or_false] at inside
  rcases inside with rfl | rfl | rfl <;> exact Nat.le_of_ble_eq_true rfl

/-- A package that is built: it has two pools and a name that fits, and its nodes are a header of the size of a new
one, the pools and chunks that are kept. -/
structure Formed (package : Package) (types keys : PoolSlot) (tree : BlockTree) : Prop where
  typeStrings : package.typeStrings = some types
  keyStrings : package.keyStrings = some keys
  plain : types.pool.Plain ∧ keys.pool.Plain
  name : checkName package.name = .ok ()
  node : tree.form? package.node = some (package.nodeForm types.node keys.node)
  header : tree.form? package.header = some .leaf
  stamp : tree.stamp? package.header = some newHeader.stamp
  pools : tree.form? types.node = some .leaf ∧ tree.form? keys.node = some .leaf
  chunks : ∀ chunk ∈ package.chunks, chunk.1 ≠ .stringPool ∧
    ∃ head body, tree.KeepsChunk chunk.1 chunk.2 head body

namespace Formed

theorem children (formed : package.Formed types keys tree) :
    tree.children package.node = package.header :: types.node :: keys.node :: package.chunks.map Prod.snd :=
  BlockTree.children_of_form? formed.node

theorem owns (formed : package.Formed types keys tree) {id : NodeId}
    (inside : id ∈ package.header :: types.node :: keys.node :: package.chunks.map Prod.snd) :
    tree.Owns package.node id :=
  BlockTree.Owns.top.of_mem_children (formed.children ▸ inside)

theorem owns_chunk (formed : package.Formed types keys tree) {chunk : ChunkType × NodeId}
    (inside : chunk ∈ package.chunks) : tree.Owns package.node chunk.2 :=
  formed.owns (List.mem_cons_of_mem _ (List.mem_cons_of_mem _ (List.mem_cons_of_mem _ (List.mem_map_of_mem inside))))

/-- A child of a package's node is a leaf or the node of a chunk. -/
theorem part_of_mem (formed : package.Formed types keys tree) {id : NodeId}
    (inside : id ∈ tree.children package.node) :
    tree.form? id = some .leaf ∨ ∃ type head body, tree.KeepsChunk type id head body := by
  rw [formed.children] at inside
  simp only [List.mem_cons, List.mem_map] at inside
  rcases inside with rfl | rfl | rfl | ⟨chunk, member, rfl⟩
  · exact .inl formed.header
  · exact .inl formed.pools.1
  · exact .inl formed.pools.2
  · obtain ⟨_, head, body, keeps⟩ := formed.chunks chunk member
    exact .inr ⟨chunk.1, head, body, keeps⟩

/-- A node below a package that is built is the node of the package, a leaf or the node of a chunk. -/
theorem part (formed : package.Formed types keys tree) {id : NodeId} (owned : tree.Owns package.node id) :
    id = package.node ∨ tree.form? id = some .leaf ∨ ∃ type head body, tree.KeepsChunk type id head body := by
  induction owned with
  | top => exact .inl rfl
  | @child parent id node _ found inside ih =>
      rw [← BlockTree.children_of_node? found] at inside
      rcases ih with rfl | leaf | ⟨type, head, body, keeps⟩
      · exact .inr (formed.part_of_mem inside)
      · rw [BlockTree.children_of_form? leaf] at inside
        exact absurd inside List.not_mem_nil
      · exact .inr (.inl (keeps.leaf_of_mem inside))

/-- No patch of a package writes into the first four bytes of a header. -/
theorem low (formed : package.Formed types keys tree) :
    ∀ pair ∈ tree.patchesBelow package.node, 4 ≤ pair.2.field.position := by
  rintro ⟨id, patch⟩ inside
  rcases formed.part (BlockTree.mem_of_mem_patchesTo inside).1 with rfl | leaf | ⟨type, head, body, keeps⟩
  · exact low_of_nodeForm (BlockTree.mem_patches_of_form? inside formed.node)
  · exact absurd (BlockTree.mem_patches_of_form? inside leaf) List.not_mem_nil
  · rw [List.mem_singleton.1 (BlockTree.mem_patches_of_form? inside keeps.container)]
    exact Nat.le_refl 4

/-- The leaves of the pools are no headers. -/
theorem not_heads (formed : package.Formed types keys tree) (forest : tree.Forest) :
    ¬tree.Heads types.node ∧ ¬tree.Heads keys.node :=
  ⟨forest.not_heads formed.children (by simp), forest.not_heads formed.children (by simp)⟩

/-- What stands below the node of a package is the same wherever it is alike. -/
theorem frame (formed : package.Formed types keys tree)
    (alike : ∀ id, tree.Owns package.node id → tree.Alike final id) : package.Formed types keys final := by
  have same (id : NodeId) (inside : id ∈ package.header :: types.node :: keys.node :: package.chunks.map Prod.snd) :=
    (alike id (formed.owns inside)).1
  exact {
    typeStrings := formed.typeStrings
    keyStrings := formed.keyStrings
    plain := formed.plain
    name := formed.name
    node := (alike _ .top).1.trans formed.node
    header := (same _ (by simp)).trans formed.header
    stamp := ((alike _ (formed.owns (by simp))).2 ⟨_, _, formed.children⟩).trans formed.stamp
    pools := ⟨(same _ (by simp)).trans formed.pools.1, (same _ (by simp)).trans formed.pools.2⟩
    chunks := fun chunk inside => by
      obtain ⟨other, head, body, keeps⟩ := formed.chunks chunk inside
      exact ⟨other, head, body, keeps.frame fun id owned => alike id ((formed.owns_chunk inside).trans owned)⟩ }

/-- A pool of a package is exchanged. -/
theorem withPool (formed : package.Formed types keys tree) {which : PackagePool} {slot : PoolSlot}
    (found : package.slot? which = some slot) {pool : StringPool} (plain : slot.pool.Plain → pool.Plain) :
    ∃ types keys, (package.withSlot which { slot with pool }).Formed types keys tree := by
  cases which with
  | types =>
      cases formed.typeStrings.symm.trans found
      exact ⟨_, keys, { formed with
        typeStrings := rfl
        plain := ⟨plain formed.plain.1, formed.plain.2⟩ }⟩
  | keys =>
      cases formed.keyStrings.symm.trans found
      exact ⟨types, _, { formed with
        keyStrings := rfl
        plain := ⟨formed.plain.1, plain formed.plain.2⟩ }⟩

/-- A chunk is added behind the chunks of a package. -/
theorem withChunk (formed : package.Formed types keys tree) (linked : tree.Linked) {bytes : List UInt8} {owner : Node}
    (found : tree.node? package.node = some owner) (isChunk : IsChunk bytes)
    (other : (Chunk.ofBytes 0 bytes).header.type ≠ .stringPool)
    (added : ChunkAdded package.node (.ofBytes 0 bytes) owner tree between final) :
    (package.withChunk (Chunk.ofBytes 0 bytes).header.type tree.fresh).Formed types keys final := by
  have low := BlockTree.index_lt found
  have core (id : NodeId) (apart : id ≠ package.node) : final.core? id = between.core? id :=
    added.attached.core?_eq added.kept.node apart
  have alike (id : NodeId) (owned : tree.Owns package.node id) (apart : id ≠ package.node) :
      tree.Alike final id := by
    obtain ⟨shape, live⟩ := owned.live linked.toForest (BlockTree.shape?_of_some found)
    refine .of_core? ((core id apart).trans ?_)
    rw [BlockTree.core?, BlockTree.core?, added.kept.grows.kept id (BlockTree.index_lt_of_shape? live)]
  have below (id : NodeId) (inside : id ∈ package.header :: types.node :: keys.node :: package.chunks.map Prod.snd) :
      tree.Owns package.node id ∧ id ≠ package.node :=
    ⟨formed.owns inside, (BlockTree.ne_of_index_lt (linked.lt (BlockTree.shape?_of_some found) (by
      change id ∈ owner.children
      rwa [← BlockTree.children_of_node? found, formed.children]))).symm⟩
  have same (id : NodeId) (inside : id ∈ package.header :: types.node :: keys.node :: package.chunks.map Prod.snd) :
      tree.Alike final id := alike id (below id inside).1 (below id inside).2
  exact {
    typeStrings := formed.typeStrings
    keyStrings := formed.keyStrings
    plain := formed.plain
    name := formed.name
    node := by
      obtain ⟨node, live, content, children, patches⟩ := BlockTree.node_of_form? formed.node
      cases live.symm.trans found
      change final.form? package.node = _
      rw [BlockTree.form?_of_shape? (BlockTree.shape?_of_some added.attached.above)]
      unfold Node.shape
      dsimp only
      rw [content, children, patches]
      simp [nodeForm, Package.withChunk]
    header := (same package.header (by simp)).1.trans formed.header
    stamp := ((same package.header (by simp)).2 ⟨_, _, formed.children⟩).trans formed.stamp
    pools := ⟨(same _ (by simp)).1.trans formed.pools.1, (same _ (by simp)).1.trans formed.pools.2⟩
    chunks := fun chunk inside => by
      rcases List.mem_append.1 inside with inside | inside
      · obtain ⟨other, head, body, keeps⟩ := formed.chunks chunk inside
        have here := below chunk.2 (by simp only [List.mem_cons]; exact .inr (.inr (.inr (List.mem_map_of_mem inside))))
        refine ⟨other, head, body, keeps.frame fun id owned => alike id (here.1.trans owned) ?_⟩
        rintro rfl
        have order := owned.index_le linked
        have above := linked.lt (BlockTree.shape?_of_some found) (by
          change chunk.2 ∈ owner.children
          rw [← BlockTree.children_of_node? found, formed.children]
          exact List.mem_cons_of_mem _ (List.mem_cons_of_mem _ (List.mem_cons_of_mem _ (List.mem_map_of_mem inside))))
        omega
      · cases List.mem_singleton.1 inside
        have before (id : NodeId) (behind : tree.nodes.size ≤ id.index) : id ≠ package.node := by
          rintro rfl
          omega
        have keeps := added.kept.keeps isChunk
        refine ⟨other, _, _, keeps.frame fun id owned => .of_core? (core id (before id ?_))⟩
        exact owned.index_le added.kept.grows.linked }

/-- Only names that fit are given. -/
theorem rename (formed : package.Formed types keys tree) {name : String} (fits : checkName name = .ok ()) :
    ({ package with name } : Package).Formed types keys tree :=
  { formed with name := fits }

end Formed

theorem stamp_headerOf (package : Package) (header : Bytes) :
    (package.headerOf header).stamp = header.stamp := by
  rw [headerOf, Bytes.stamp_overwrite _ (by decide), Bytes.stamp_putWord32 _ (by decide)]

/-- A package that is made is built. -/
theorem Made.formed {id : UInt32} {name : String} (made : Made id name tree final)
    (fits : checkName name = .ok ()) : (Package.made tree id name).Formed
      { pool := .empty .utf8, node := ⟨tree.nodes.size + 2⟩ } { pool := .empty .utf8, node := ⟨tree.nodes.size + 3⟩ }
      final where
  typeStrings := rfl
  keyStrings := rfl
  plain := ⟨StringPool.plain_empty _, StringPool.plain_empty _⟩
  name := fits
  node := BlockTree.form?_of_shape? made.node
  header := BlockTree.form?_of_shape? (made.leaves _ (by omega) (by omega))
  stamp := by
    change final.stamp? ⟨tree.nodes.size + 1⟩ = _
    rw [BlockTree.stamp?_of_leaf made.header, stamp_headerOf]
  pools := ⟨BlockTree.form?_of_shape? (made.leaves _ (by omega) (by omega)),
    BlockTree.form?_of_shape? (made.leaves _ (by omega) (by omega))⟩
  chunks := by simp [Package.made]

theorem refreshPool_restamps {slot : PoolSlot} (apart : ¬tree.Heads slot.node) :
    (refreshPool (some slot)).Leads BlockTree.Restamped tree := by
  unfold refreshPool
  dsimp only
  split
  · exact BlockTree.Restamped.setLeaf apart _
  · exact .pure (.refl tree) _

/-- A refresh of a package keeps the headers. -/
theorem Formed.refresh_restamps (formed : package.Formed types keys tree) (forest : tree.Forest) :
    package.refresh.Leads BlockTree.Restamped tree := by
  obtain ⟨typesApart, keysApart⟩ := formed.not_heads forest
  unfold Package.refresh
  rw [formed.typeStrings, formed.keyStrings]
  exact .bind .trans (BlockTree.Restamped.modifyLeaf package.stamp_headerOf tree) fun _ first here =>
    .bind .trans (refreshPool_restamps fun heads => typesApart (here.heads_iff.1 heads)) fun _ second there =>
      refreshPool_restamps fun heads => keysApart (here.heads_iff.1 (there.heads_iff.1 heads))

end Package
namespace Table

variable {table final : Table}

/-- A table that is built: its nodes are a header, the global strings and the container for the packages, and every
package is built. -/
structure Formed (table : Table) : Prop where
  sound : table.Sound
  root : table.root = ⟨0⟩
  packagesNode : table.packagesNode = ⟨2⟩
  stringsNode : table.stringsNode = ⟨3⟩
  top : table.tree.form? ⟨0⟩ = some {
    content := .container
    children := [⟨1⟩, ⟨3⟩, ⟨2⟩]
    patches := rootPatches }
  header : table.tree.form? ⟨1⟩ = some .leaf
  stamp : table.tree.stamp? ⟨1⟩ = some newHeader.stamp
  container : ∃ node, table.tree.node? ⟨2⟩ = some node ∧ node.patches = []
  strings : table.tree.form? ⟨3⟩ = some .leaf
  plain : table.strings.Plain
  packages : ∀ package ∈ table.packages, ∃ types keys, package.Formed types keys table.tree

theorem formed_empty (made : empty = .ok table) : table.Formed := by
  have sound := sound_empty made
  obtain ⟨final, run, built⟩ := build_ok
  unfold empty at made
  rw [run] at made
  cases made
  obtain ⟨node, live, shape⟩ := Option.map_eq_some_iff.1 built.packages
  exact {
    sound
    root := rfl
    packagesNode := rfl
    stringsNode := rfl
    top := BlockTree.form?_of_shape? built.root
    header := BlockTree.form?_of_shape? built.header
    stamp := BlockTree.stamp?_of_leaf built.bytes
    container := ⟨node, live, congrArg Shape.patches shape⟩
    strings := BlockTree.form?_of_shape? built.strings
    plain := StringPool.plain_empty _
    packages := by simp }

namespace Formed

theorem houses (formed : table.Formed) : Houses table.tree ⟨2⟩ table.packages :=
  formed.packagesNode ▸ formed.sound

theorem linked (formed : table.Formed) : table.tree.Linked :=
  formed.houses.linked

theorem children (formed : table.Formed) : table.tree.children ⟨0⟩ = [⟨1⟩, ⟨3⟩, ⟨2⟩] :=
  BlockTree.children_of_form? formed.top

/-- The container for the packages lists their nodes and has no patches. -/
theorem middle (formed : table.Formed) : table.tree.form? ⟨2⟩ = some {
    content := .container
    children := table.packages.map Package.node } := by
  obtain ⟨owner, found, container, children⟩ := formed.houses.owner
  obtain ⟨node, live, patches⟩ := formed.container
  cases live.symm.trans found
  rw [BlockTree.form?_of_shape? (BlockTree.shape?_of_some found)]
  unfold Node.shape
  rw [container, children, patches]
  rfl

/-- The first nodes of a table do not belong to a package. -/
theorem not_owns (formed : table.Formed) {package : Package} (inside : package ∈ table.packages) {id : NodeId}
    (low : id.index < 4) : ¬table.tree.Owns package.node id := fun owned => by
  have above := formed.houses.low inside
  have order := owned.index_le formed.linked
  have same : package.node = ⟨3⟩ := NodeId.eq_iff.2 (by
    change 2 < _ at above
    change _ = 3
    omega)
  obtain ⟨types, keys, built⟩ := formed.packages package inside
  have leaf := formed.strings
  rw [← same, built.node] at leaf
  cases leaf

/-- A table stays built when its first nodes are alike and every package is built. -/
theorem next (formed : table.Formed) (sound : final.Sound) (root : final.root = table.root)
    (packagesNode : final.packagesNode = table.packagesNode) (stringsNode : final.stringsNode = table.stringsNode)
    (base : ∀ id, id.index < 4 → id ≠ ⟨2⟩ → table.tree.Alike final.tree id)
    (container : ∃ node, final.tree.node? ⟨2⟩ = some node ∧ node.patches = []) (plain : final.strings.Plain)
    (packages : ∀ package ∈ final.packages, ∃ types keys, package.Formed types keys final.tree) : final.Formed where
  sound := sound
  root := root.trans formed.root
  packagesNode := packagesNode.trans formed.packagesNode
  stringsNode := stringsNode.trans formed.stringsNode
  top := (base ⟨0⟩ (by decide) (by decide)).1.trans formed.top
  header := (base ⟨1⟩ (by decide) (by decide)).1.trans formed.header
  stamp := ((base ⟨1⟩ (by decide) (by decide)).2 ⟨⟨0⟩, _, formed.children⟩).trans formed.stamp
  container := container
  strings := (base ⟨3⟩ (by decide) (by decide)).1.trans formed.strings
  plain := plain
  packages := packages

/-- A table stays built in the same tree when every package is built. -/
theorem here (formed : table.Formed) {strings : StringPool} {packages : List Package}
    (sound : Houses table.tree table.packagesNode packages) (plain : strings.Plain)
    (built : ∀ package ∈ packages, ∃ types keys, package.Formed types keys table.tree) :
    Formed { table with
      strings
      packages } :=
  formed.next sound rfl rfl rfl (fun _ _ _ => .of_node? rfl) formed.container plain built

/-- A table stays built when only the container for the packages changes and nodes are added. -/
theorem grown (formed : table.Formed) (sound : final.Sound) (root : final.root = table.root)
    (packagesNode : final.packagesNode = table.packagesNode) (stringsNode : final.stringsNode = table.stringsNode)
    (same : ∀ id, id.index < table.tree.nodes.size → id ≠ ⟨2⟩ → final.tree.core? id = table.tree.core? id)
    (container : ∃ node, final.tree.node? ⟨2⟩ = some node ∧ node.patches = []) (plain : final.strings.Plain)
    (packages : ∀ package ∈ final.packages, package ∈ table.packages ∨
      ∃ types keys, package.Formed types keys final.tree) : final.Formed := by
  refine formed.next sound root packagesNode stringsNode (fun id low apart => .of_core? (same id ?_ apart)) container
    plain fun package inside => (packages package inside).elim (fun old => ?_) id
  · obtain ⟨_, _, live, _⟩ := BlockTree.leaf_of_form? formed.strings
    have size := BlockTree.index_lt live
    exact Nat.lt_of_le_of_lt (Nat.le_of_lt_succ low) size
  · obtain ⟨types, keys, built⟩ := formed.packages package old
    obtain ⟨node, live, _⟩ := BlockTree.node_of_form? built.node
    refine ⟨types, keys, built.frame fun id owned => .of_core? (same id ?_ ?_)⟩
    · obtain ⟨shape, found⟩ := owned.live formed.linked.toForest (BlockTree.shape?_of_some live)
      exact BlockTree.index_lt_of_shape? found
    · rintro rfl
      exact formed.not_owns old (by decide) owned

end Formed

/-- The nodes below the root of a table. -/
inductive Part (table : Table) : NodeId → Prop
  | top : Part table ⟨0⟩
  | container : Part table ⟨2⟩
  | leaf {id : NodeId} (form : table.tree.form? id = some .leaf) : Part table id
  | package {package : Package} {types keys : PoolSlot} (inside : package ∈ table.packages)
    (built : package.Formed types keys table.tree) : Part table package.node
  | chunk {type : ChunkType} {node head body : NodeId} (keeps : table.tree.KeepsChunk type node head body) :
    Part table node

theorem Formed.part (formed : table.Formed) {id : NodeId} (owned : table.tree.Owns ⟨0⟩ id) : Part table id := by
  induction owned with
  | top => exact .top
  | @child parent id node _ found inside ih =>
      rw [← BlockTree.children_of_node? found] at inside
      cases ih with
      | top =>
          rw [formed.children] at inside
          simp only [List.mem_cons, List.not_mem_nil, or_false] at inside
          rcases inside with rfl | rfl | rfl
          · exact .leaf formed.header
          · exact .leaf formed.strings
          · exact .container
      | container =>
          rw [formed.houses.children] at inside
          obtain ⟨package, listed, rfl⟩ := List.mem_map.1 inside
          obtain ⟨types, keys, built⟩ := formed.packages package listed
          exact .package listed built
      | leaf form =>
          rw [BlockTree.children_of_form? form] at inside
          exact absurd inside List.not_mem_nil
      | package _ built =>
          rcases built.part_of_mem inside with leaf | ⟨_, _, _, keeps⟩
          · exact .leaf leaf
          · exact .chunk keeps
      | chunk keeps => exact .leaf (keeps.leaf_of_mem inside)

/-- No patch of a table writes into the first four bytes of a header. -/
theorem Formed.low (formed : table.Formed) :
    ∀ pair ∈ table.tree.patchesBelow ⟨0⟩, 4 ≤ pair.2.field.position := by
  rintro ⟨id, patch⟩ inside
  have patches {form : BlockTree.Form} (found : table.tree.form? id = some form) : patch ∈ form.patches :=
    BlockTree.mem_patches_of_form? inside found
  cases formed.part (BlockTree.mem_of_mem_patchesTo inside).1 with
  | top =>
      have listed := patches formed.top
      simp only [rootPatches, List.mem_cons, List.not_mem_nil, or_false] at listed
      rcases listed with rfl | rfl <;> decide
  | container => exact absurd (patches formed.middle) List.not_mem_nil
  | leaf form => exact absurd (patches form) List.not_mem_nil
  | package _ built => exact Package.low_of_nodeForm (patches built.node)
  | chunk keeps =>
      rw [List.mem_singleton.1 (patches keeps.container)]
      exact Nat.le_refl 4

/-- Nothing of a table changes but places and bytes, and the headers keep their stamps. -/
structure Restamped (table final : Table) : Prop where
  tree : BlockTree.Restamped table.tree final.tree
  rest : final = { table with tree := final.tree }

namespace Restamped

theorem refl (table : Table) : Restamped table table :=
  ⟨.refl _, rfl⟩

theorem trans {between : Table} (before : Restamped table between) (behind : Restamped between final) :
    Restamped table final where
  tree := before.tree.trans behind.tree
  rest := by rw [behind.rest, before.rest]

theorem formed (restamped : Restamped table final) (formed : table.Formed) : final.Formed := by
  have shapes := restamped.tree.shapes
  have form := BlockTree.form?_congr (congrFun shapes ⟨2⟩)
  obtain ⟨node, live, _, _, patches⟩ := BlockTree.node_of_form? (form.trans formed.middle)
  have packages (package : Package) (inside : package ∈ table.packages) :
      ∃ types keys, package.Formed types keys final.tree := by
    obtain ⟨types, keys, built⟩ := formed.packages package inside
    exact ⟨types, keys, built.frame fun id _ => restamped.tree.alike id⟩
  rw [restamped.rest]
  exact formed.next (formed.sound.congr shapes) rfl rfl rfl (fun id _ _ => restamped.tree.alike id)
    ⟨node, live, patches⟩ formed.plain packages

end Restamped

theorem onTree_restamps {α : Type} {step : Step BlockTree α} (leads : step.Leads BlockTree.Restamped table.tree) :
    (onTree step).Leads Restamped table :=
  .onPart leads fun _ restamped => ⟨restamped, rfl⟩

/-- A refresh keeps the headers of a table that is built. -/
theorem Formed.refresh_restamps (formed : table.Formed) : refresh.Leads Restamped table := by
  have row : (table.packages.forM fun package => onTree package.refresh).Ensures table
      (fun _ => Restamped table) (Restamped table) := by
    refine .forM (fun package inside current here => ?_) (.refl table)
    have built := here.formed formed
    obtain ⟨types, keys, formed⟩ := built.packages package (by rwa [here.rest])
    exact (onTree_restamps (formed.refresh_restamps built.linked.toForest)).ensures.imp
      (fun _ _ there => here.trans there) fun _ there => here.trans there
  have last {current : Table} (here : Restamped table current) :
      (onTree (BlockTree.refresh table.root)).Ensures current (fun _ => Restamped table) (Restamped table) := by
    have built := here.formed formed
    obtain ⟨node, live, _⟩ := BlockTree.node_of_form? built.top
    have leads := built.linked.toForest.refresh_restamps live built.low
    rw [← formed.root] at leads
    exact (onTree_restamps leads).ensures.imp (fun _ _ there => here.trans there) fun _ there => here.trans there
  refine ⟨?_⟩
  unfold refresh
  refine .get (row.bind fun _ current here => ?_)
  split
  · have built := here.formed formed
    have apart : ¬current.tree.Heads table.stringsNode := by
      rw [formed.stringsNode]
      exact built.linked.toForest.not_heads built.children (by simp)
    exact ((onTree_restamps (BlockTree.Restamped.setLeaf apart _)).ensures.imp
      (fun _ _ there => here.trans there) fun _ there => here.trans there).bind fun _ _ => last
  · exact last here

theorem Formed.toBytes_restamps (formed : table.Formed) : toBytes.Leads Restamped table := by
  unfold toBytes
  exact .bind .trans formed.refresh_restamps fun _ between _ => .get (.pure (.refl between) _)

end Table

namespace StringPool

variable {pool : StringPool}

theorem internStep_leads (text : String) (pool : StringPool) :
    (internStep text).Leads (fun pool image => pool.Plain → image.Plain) pool := by
  unfold internStep
  exact .get (.check id fun result run => ⟨.of_ok rfl fun plain => plain.extends (intern_eq_ok run).1⟩)

theorem setStep_leads (index : UInt32) (text : String) (pool : StringPool) :
    (setStep index text).Leads (fun pool image => pool.Plain → image.Plain) pool := by
  unfold setStep
  exact .get (.check id fun image run => ⟨.of_ok rfl fun plain => plain.set run⟩)

end StringPool

namespace Table

variable {table final : Table}

theorem internPackage_formed (formed : table.Formed) (id : UInt32) (name : String) :
    (internPackage id name).Ensures table (fun _ => Formed) Formed := by
  refine ((internPackage_ensures formed.sound id name).and (internPackage_sound formed.sound id name)).imp
    (fun package final both => ?_) fun final both => both.1 ▸ formed
  obtain ⟨interned, sound⟩ := both
  cases interned with
  | found here => exact formed
  | made absent small fits made above live attached =>
      have core {other : NodeId} (apart : other ≠ ⟨2⟩) :=
        attached.core?_eq live (by rw [formed.packagesNode]; exact apart : other ≠ table.packagesNode)
      obtain ⟨node, found, patches⟩ := formed.container
      have size := BlockTree.index_lt found
      refine formed.grown sound rfl rfl rfl (fun other old apart => (core apart).trans ?_)
        ⟨_, formed.packagesNode ▸ attached.above, ?_⟩ formed.plain fun package inside => ?_
      · rw [BlockTree.core?, BlockTree.core?, made.grows.kept other old]
      · have same := (made.grows.kept ⟨2⟩ size).trans found
        rw [formed.packagesNode] at above
        cases same.symm.trans above
        exact patches
      · refine (List.mem_append.1 inside).imp_right fun here => ?_
        cases List.mem_singleton.1 here
        refine ⟨_, _, (made.formed fits).frame fun other owned => .of_core? (core ?_)⟩
        have order := owned.index_le made.grows.linked
        rintro rfl
        exact absurd size (Nat.not_lt.2 order)

theorem pushChunk_formed (formed : table.Formed) (id : UInt32) (bytes : Bytes) :
    (pushChunk id bytes).Ensures table (fun _ => Formed) Formed := by
  refine ((pushChunk_ensures formed.sound id bytes).and (pushChunk_sound formed.sound id bytes)).imp
    (fun _ final both => ?_) fun final both => both.1 ▸ formed
  obtain ⟨⟨before, package, behind, chunk, owner, between, tree, pushed⟩, sound⟩ := both
  obtain ⟨⟨cursor, read, _⟩, type⟩ := pushed.pushable
  obtain ⟨source, isChunk, _, rfl, _⟩ := Chunk.read_eq_ok.1 read
  have houses := formed.packagesNode ▸ pushed.splits.houses formed.sound
  have inside := pushed.splits.mem
  have linked := formed.linked
  have added := pushed.added
  have same (other : NodeId) (old : other.index < table.tree.nodes.size) (apart : other ≠ package.node) :
      tree.core? other = table.tree.core? other := by
    rw [added.attached.core?_eq added.kept.node apart, BlockTree.core?, BlockTree.core?, added.kept.grows.kept other old]
  have base (other : NodeId) (low : other.index < 4) : tree.core? other = table.tree.core? other := by
    obtain ⟨_, _, live, _⟩ := BlockTree.leaf_of_form? formed.strings
    refine same other (Nat.lt_of_le_of_lt (Nat.le_of_lt_succ low) (BlockTree.index_lt live)) ?_
    rintro rfl
    exact formed.not_owns inside low .top
  obtain ⟨node, live, patches⟩ := formed.container
  obtain ⟨node', live', _, _, patches'⟩ := BlockTree.node_of_core? (base ⟨2⟩ (by decide)) live
  rw [pushed.final] at sound ⊢
  refine formed.next sound rfl rfl rfl (fun other low _ => .of_core? (base other low))
    ⟨node', live', patches'.trans patches⟩ formed.plain fun other listed => ?_
  have kept (other : Package) (listed : other ∈ before ++ behind) :
      ∃ types keys, other.Formed types keys tree := by
    have member := @Houses.mem_of_mem_rest package before behind other listed
    obtain ⟨types, keys, built⟩ := formed.packages other (pushed.splits.whole ▸ member)
    obtain ⟨top, found, _⟩ := BlockTree.node_of_form? built.node
    refine ⟨types, keys, built.frame fun id owned => .of_core? (same id ?_ ?_)⟩
    · obtain ⟨shape, here⟩ := owned.live linked.toForest (BlockTree.shape?_of_some found)
      exact BlockTree.index_lt_of_shape? here
    · rintro rfl
      exact houses.apart listed owned .top
  rcases List.mem_append.1 listed with listed | listed
  · exact kept other (List.mem_append_left _ listed)
  · rcases List.mem_cons.1 listed with rfl | listed
    · obtain ⟨types, keys, built⟩ := formed.packages package inside
      exact ⟨types, keys, built.withChunk linked pushed.found isChunk (fun here => type (.inr (.inr here))) added⟩
    · exact kept other (List.mem_append_right _ listed)

theorem renamePackage_formed (formed : table.Formed) (id : UInt32) (name : String) :
    (renamePackage id name).Ensures table (fun _ => Formed) Formed := by
  refine ((renamePackage_ensures table id name).and (renamePackage_sound formed.sound id name)).imp
    (fun _ final both => ?_) fun final both => both.1 ▸ formed
  obtain ⟨⟨fits, before, package, behind, splits, rfl⟩, sound⟩ := both
  refine formed.here sound formed.plain fun other inside => ?_
  rcases List.mem_append.1 inside with inside | inside
  · exact formed.packages other (by simp [splits.whole, inside])
  · rcases List.mem_cons.1 inside with rfl | inside
    · obtain ⟨types, keys, built⟩ := formed.packages package splits.mem
      exact ⟨types, keys, built.rename fits⟩
    · exact formed.packages other (by simp [splits.whole, inside])

theorem removePackage_formed (formed : table.Formed) (id : UInt32) :
    (removePackage id).Ensures table (fun _ => Formed) Formed := by
  refine ((removePackage_ensures formed.sound id).and (removePackage_sound formed.sound id)).imp
    (fun _ final both => ?_) fun final both => both.1 ▸ formed
  obtain ⟨⟨before, behind, tree, removed⟩, sound⟩ := both
  rename_i package
  have houses := formed.packagesNode ▸ removed.splits.houses formed.sound
  have inside := removed.splits.mem
  have removes := formed.packagesNode ▸ removed.removes
  rw [removed.final] at sound ⊢
  obtain ⟨node, live, patches⟩ := formed.container
  have owner := removes.owner
  rw [live] at owner
  refine formed.next sound rfl rfl rfl (fun other low apart => .of_node? ?_) ⟨_, owner, patches⟩ formed.plain
    fun other listed => ?_
  · exact removes.kept other apart (formed.not_owns inside low)
  · have member := @Houses.mem_of_mem_rest package before behind other listed
    have listed' : other ∈ table.packages := removed.splits.whole ▸ member
    obtain ⟨types, keys, built⟩ := formed.packages other listed'
    refine ⟨types, keys, built.frame fun id owned => .of_node? (removes.kept id ?_ (houses.apart listed owned))⟩
    rintro rfl
    exact formed.not_owns listed' (by decide) owned

theorem sortPackages_formed (formed : table.Formed) : sortPackages.Ensures table (fun _ => Formed) Formed := by
  have sound := (sortPackages_sound formed.sound).ok (sortPackages_ok formed.sound)
  refine .of_ok (sortPackages_ok formed.sound) ?_
  obtain ⟨node, live, patches⟩ := formed.container
  have others (id : NodeId) (apart : id ≠ ⟨2⟩) : (table.tree.modifyNode table.packagesNode fun node => { node with
      children := BlockTree.sortBy (fun first second => decide (first ≤ second)) table.sortKey
        node.children }).node? id = table.tree.node? id := by
    rw [BlockTree.node?_modifyNode, if_neg (by rwa [formed.packagesNode])]
  have owner := BlockTree.node?_modifyNode table.tree table.packagesNode ⟨2⟩ fun node => { node with
    children := BlockTree.sortBy (fun first second => decide (first ≤ second)) table.sortKey node.children }
  rw [if_pos formed.packagesNode.symm, live] at owner
  refine formed.grown sound rfl rfl rfl (fun id _ apart => ?_) ⟨_, owner, patches⟩ formed.plain fun package inside =>
    .inl (mem_sorted.1 inside)
  rw [BlockTree.core?, BlockTree.core?, others id apart]

theorem editPool_formed {α : Type} {step : Step StringPool α}
    (plain : ∀ pool, step.Leads (fun pool image => pool.Plain → image.Plain) pool) (formed : table.Formed)
    (id : UInt32) (which : PackagePool) :
    (editPackage id (Package.editPool which step)).Leads (fun _ => Formed) table := by
  refine .of_ends fun final ends => ?_
  rcases editPool_ends ends with rfl | ⟨before, package, behind, slot, pool, splits, found, inner, rfl⟩
  · exact formed
  · have sound := splits.sound_of_same formed.sound
      (show (package.withSlot which { slot with pool }).node = package.node by cases which <;> rfl)
      (show (package.withSlot which { slot with pool }).chunks = package.chunks by cases which <;> rfl)
    refine formed.here sound formed.plain fun other inside => ?_
    rcases List.mem_append.1 inside with inside | inside
    · exact formed.packages other (by simp [splits.whole, inside])
    · rcases List.mem_cons.1 inside with rfl | inside
      · obtain ⟨types, keys, built⟩ := formed.packages package splits.mem
        exact built.withPool found ((plain slot.pool).ends inner)
      · exact formed.packages other (by simp [splits.whole, inside])

/-- An edit keeps a table built, whether it succeeds or fails. -/
theorem Edit.formed (edit : Edit) (formed : table.Formed) (ends : edit.step.Ends table final) : final.Formed := by
  have strings {α : Type} {step : Step StringPool α}
      (plain : ∀ pool, step.Leads (fun pool image => pool.Plain → image.Plain) pool) :
      (onStrings step).Leads (fun _ => Formed) table :=
    .onPart (plain table.strings) fun pool grown =>
      formed.here (formed.sound : Houses _ _ _) (grown formed.plain) formed.packages
  suffices leads : edit.step.Leads (fun _ => Formed) table from leads.ends ends
  cases edit with
  | internString text => exact (strings (StringPool.internStep_leads text)).discard
  | setString index text => exact strings (StringPool.setStep_leads index text)
  | internPoolString id which text => exact (editPool_formed (StringPool.internStep_leads text) formed id which).discard
  | setPoolString id which index text =>
      exact (editPool_formed (StringPool.setStep_leads index text) formed id which).discard
  | internPackage id name => exact Step.Leads.discard ⟨internPackage_formed formed id name⟩
  | pushChunk id bytes => exact Step.Leads.discard ⟨pushChunk_formed formed id bytes⟩
  | renamePackage id name => exact ⟨renamePackage_formed formed id name⟩
  | removePackage id => exact Step.Leads.discard ⟨removePackage_formed formed id⟩
  | sortPackages => exact ⟨sortPackages_formed formed⟩
  | refresh => exact (formed.refresh_restamps.imp fun _ restamped => restamped.formed formed).discard
  | toBytes => exact (formed.toBytes_restamps.imp fun _ restamped => restamped.formed formed).discard

end Table
end Resource
end DexArsc
