/-
Packages that stand in a block tree as they stand in bytes: a header, and behind it a row of nodes that spell
the pieces. The header names the places of the pools, and the package has the contents that the pieces tell.
-/

import DexArsc.Proofs.BlockTree.Current
import DexArsc.Proofs.Resource.PackageHead
import DexArsc.Proofs.Resource.PackageRead
import DexArsc.Proofs.Resource.Row

namespace DexArsc.Resource

variable {tree between final : BlockTree} {parent : NodeId} {owner : Node} {bytes : List UInt8}

/-- A node that spells bytes is added behind the children of another one, which receives patches. -/
structure PieceAdded (parent : NodeId) (owner : Node) (bytes : List UInt8) (more : List Patch)
    (tree final : BlockTree) : Prop where
  linked : final.Linked
  above : final.node? parent = some { owner with
    children := owner.children ++ [tree.fresh]
    patches := owner.patches ++ more }
  spells : final.Spells tree.fresh bytes
  others : ∀ id, id.index < tree.nodes.size → id ≠ parent → final.core? id = tree.core? id

theorem Chunk.Laid.spells {start : Nat} (isChunk : IsChunk bytes)
    (laid : Laid (.ofBytes start bytes) tree final) : final.Spells tree.fresh bytes := by
  have forest := laid.forest
  have least := isChunk.least
  have within := isChunk.within
  unfold minHeaderSize at least
  have whole := List.take_append_drop (Bytes.half bytes 2).toNat bytes
  have head : (Chunk.ofBytes start bytes).head = (bytes.take (Bytes.half bytes 2).toNat).toArray := by
    rw [Chunk.head]
    change bytes.toArray.extract 0 (Bytes.half bytes 2).toNat = _
    rw [List.extract_toArray, List.extract_eq_take_drop]
    simp
  have body : (Chunk.ofBytes start bytes).body = (bytes.drop (Bytes.half bytes 2).toNat).toArray := by
    rw [Chunk.body]
    change bytes.toArray.extract (Bytes.half bytes 2).toNat bytes.toArray.size = _
    rw [List.extract_toArray, List.extract_eq_take_drop, List.size_toArray, List.take_of_length_le]
    simp
  have headed : final.Headed tree.fresh ⟨tree.nodes.size + 1⟩ (bytes.take (Bytes.half bytes 2).toNat)
      [⟨tree.nodes.size + 2⟩] [.size (.word ⟨tree.nodes.size + 1⟩ 4)] := {
    node := ⟨_, laid.node, rfl, rfl, rfl⟩
    header := ⟨_, laid.head, by rw [head], rfl⟩ }
  have spelled : List.Forall₂ final.Spells [⟨tree.nodes.size + 2⟩] [bytes.drop (Bytes.half bytes 2).toNat] :=
    .cons (.leaf forest laid.body (by rw [body]) rfl) .nil
  have total := headed.toBytes forest spelled
  rw [List.flatten_singleton, whole] at total
  have length : (bytes.take (Bytes.half bytes 2).toNat).length = (Bytes.half bytes 2).toNat := by
    rw [List.length_take, Nat.min_eq_left within]
  have word : Bytes.word (bytes.take (Bytes.half bytes 2).toNat) 4 = Bytes.word bytes 4 := by
    rw [← Bytes.word_append (by omega) (bytes.drop (Bytes.half bytes 2).toNat), whole]
  have spells := headed.spells forest spelled fun patch inside => by
    cases List.mem_singleton.1 inside
    refine ⟨4, rfl, by omega, by rintro _ ⟨⟩, ?_⟩
    change _ = _
    rw [total, word, isChunk.size]
  rwa [List.flatten_singleton, whole] at spells

/-- What becomes a child spells the same as before. -/
theorem pieceAdded_of_attached {child : NodeId} {node : Node} (same : tree.fresh = child)
    (others : ∀ id, id.index < tree.nodes.size → id ≠ parent → between.core? id = tree.core? id)
    (linked : between.Linked) (spells : between.Spells child bytes)
    (live : between.node? child = some node) (attached : between.Attached parent child owner node final) :
    PieceAdded parent owner bytes [] tree final where
  linked := attached.linked
  above := by rw [attached.above, same, List.append_nil]
  spells := by
    subst same
    refine spells.frame_behind linked attached.linked fun other behind _ => attached.core?_eq live ?_
    rintro rfl
    exact absurd behind (Nat.not_le.2 attached.order)
  others id old apart := (attached.core?_eq live apart).trans (others id old apart)

namespace Package

variable {package : Package}

theorem LeafAdded.pieceAdded {tag : UInt32} (added : LeafAdded parent tag bytes.toArray owner tree between final) :
    PieceAdded parent owner bytes [] tree final := by
  have pushed := added.pushed
  refine pieceAdded_of_attached rfl (fun id old _ => ?_) pushed.linked
    (.leaf pushed.linked.toForest pushed.fresh rfl rfl) pushed.fresh added.attached
  rw [BlockTree.core?, BlockTree.core?, pushed.others id (BlockTree.ne_of_index_lt old)]

theorem ChunkAdded.pieceAdded {start : Nat} (isChunk : IsChunk bytes)
    (added : ChunkAdded parent (.ofBytes start bytes) owner tree between final) :
    PieceAdded parent owner bytes [] tree final := by
  have kept := added.kept
  refine pieceAdded_of_attached rfl (fun id old _ => ?_) kept.grows.linked (kept.spells isChunk) kept.node
    added.attached
  rw [BlockTree.core?, BlockTree.core?, kept.grows.kept id old]

theorem PoolAdded.pieceAdded {which : PackagePool}
    (added : PoolAdded package which bytes.toArray owner tree final) : PieceAdded package.node owner bytes
      [.relativeOffset tree.fresh (.word package.header (PackagePool.position which))] tree final where
  linked := added.linked
  above := added.owner
  spells := .leaf added.linked.toForest added.leaf rfl rfl
  others id old apart := by
    rw [BlockTree.core?, BlockTree.core?, added.others id apart (BlockTree.ne_of_index_lt old)]

end Package

theorem StringPool.modified_of_read {data : Bytes} {pool : StringPool} (found : StringPool.read data = .ok pool) :
    pool.modified = false := by
  unfold StringPool.read Reader.run at found
  split at found
  · rename_i value cursor run
    cases found
    unfold StringPool.reader at run
    obtain ⟨_, _, _, run⟩ := Step.bind_eq_ok.1 run
    obtain ⟨_, _, _, run⟩ := Step.bind_eq_ok.1 run
    dsimp only at run
    obtain ⟨_, run⟩ := Step.guard_eq_ok.1 run
    obtain ⟨_, run⟩ := Step.guard_eq_ok.1 run
    obtain ⟨_, _, _, run⟩ := Step.bind_eq_ok.1 run
    obtain ⟨_, _, _, run⟩ := Step.bind_eq_ok.1 run
    obtain ⟨_, _, _, run⟩ := Step.bind_eq_ok.1 run
    obtain ⟨_, _, _, run⟩ := Step.bind_eq_ok.1 run
    obtain ⟨_, _, _, run⟩ := Step.bind_eq_ok.1 run
    obtain ⟨_, run⟩ := Step.guard_eq_ok.1 run
    cases run
    rfl
  · cases found

namespace Package

variable {tree final : BlockTree} {package image : Package} {front : List UInt8} {rows : List (List UInt8)}
  {ids : List NodeId}

/-- What a package tells: its id, its name, its strings and its chunks. -/
structure Content where
  id : UInt32
  name : String
  types : Option StringPool := none
  keys : Option StringPool := none
  chunks : List (ChunkType × List UInt8) := []

namespace Content

/-- The strings of a pool. -/
def pool? (content : Content) : PackagePool → Option StringPool
  | .types => content.types
  | .keys => content.keys

/-- The contents with other strings of a pool. -/
def withPool (content : Content) (which : PackagePool) (pool : StringPool) : Content :=
  match which with
  | .types => { content with types := some pool }
  | .keys => { content with keys := some pool }

/-- What a piece adds to the contents of a package: a pool where one has its place, or else a chunk. -/
def add (place : ChunkHeader → Option PackagePool) (content : Content) : Piece → Content
  | .gap _ => content
  | .chunk chunk => match place chunk.header with
    | some which => match StringPool.read chunk.bytes with
      | .ok pool => content.withPool which pool
      | .error _ => content
    | none => { content with chunks := content.chunks ++ [(chunk.header.type, chunk.bytes.toList)] }

/-- The contents that a header and a row of pieces tell. -/
def ofBytes (front : List UInt8) (rows : List (List UInt8)) : Content :=
  (Piece.row front.length rows).foldl (add (placeIn front))
    { id := Bytes.word front 8, name := decodeName front.toArray }

theorem ofBytes_append (front : List UInt8) (rows : List (List UInt8)) (bytes : List UInt8) :
    ofBytes front (rows ++ [bytes]) = (ofBytes front rows).add (placeIn front)
      (Piece.ofBytes (front.length + rows.flatten.length) bytes) := by
  rw [ofBytes, Piece.row_append, List.foldl_append]
  rfl

/-- A piece tells neither id nor name. -/
theorem add_head (place : ChunkHeader → Option PackagePool) (content : Content) (piece : Piece) :
    (content.add place piece).id = content.id ∧ (content.add place piece).name = content.name := by
  cases piece with
  | gap _ => exact ⟨rfl, rfl⟩
  | chunk chunk =>
      rw [add]
      split
      · rename_i which _
        split
        · cases which <;> exact ⟨rfl, rfl⟩
        · exact ⟨rfl, rfl⟩
      · exact ⟨rfl, rfl⟩

theorem ofBytes_head (front : List UInt8) (rows : List (List UInt8)) :
    (ofBytes front rows).id = Bytes.word front 8 ∧ (ofBytes front rows).name = decodeName front.toArray := by
  induction rows using List.reverseRecOn with
  | nil => exact ⟨rfl, rfl⟩
  | append_singleton rows bytes ih =>
      have kept := add_head (placeIn front) (ofBytes front rows)
        (Piece.ofBytes (front.length + rows.flatten.length) bytes)
      rw [ofBytes_append]
      exact ⟨kept.1.trans ih.1, kept.2.trans ih.2⟩

/-- Pieces tell the same behind every name. -/
theorem foldl_add_named (place : ChunkHeader → Option PackagePool) (pieces : List Piece) (content : Content)
    (name : String) : pieces.foldl (add place) { content with name } =
      { pieces.foldl (add place) content with name } := by
  induction pieces generalizing content with
  | nil => rfl
  | cons piece rest ih =>
      have step : add place { content with name } piece = { content.add place piece with name } := by
        cases piece with
        | gap _ => rfl
        | chunk chunk =>
            unfold add
            dsimp only
            split
            · rename_i which _
              split
              · cases which <;> rfl
              · rfl
            · rfl
      rw [List.foldl_cons, List.foldl_cons, step, ih]

/-- A header with another name tells this name, up to its first zero character. -/
theorem ofBytes_renameFront (long : minHeaderSize ≤ front.length) {name : String}
    (full : (encodeName name).length = 2 * nameUnits) (rows : List (List UInt8)) :
    ofBytes (renameFront front name) rows = { ofBytes front rows with name := shownName name } := by
  rw [ofBytes, ofBytes, length_renameFront, placeIn_renameFront full, decodeName_renameFront full long,
    word_renameFront full (.inl (by decide)), ← foldl_add_named]

/-- A name that is written anew tells the same. -/
theorem ofBytes_rewriteFront (long : minHeaderSize ≤ front.length) (rows : List (List UInt8)) :
    ofBytes (rewriteFront front) rows = ofBytes front rows := by
  rw [rewriteFront_eq, ofBytes_renameFront long (full_decodeName long), shownName_decodeName long,
    ← (ofBytes_head front rows).2]

end Content

/-- The contents of a package in a tree. -/
def content (package : Package) (tree : BlockTree) : Content where
  id := package.id
  name := package.name
  types := package.typeStrings.map PoolSlot.pool
  keys := package.keyStrings.map PoolSlot.pool
  chunks := package.contents tree

/-- A package has contents, and its chunks stand in nodes of a row. -/
structure Tells (package : Package) (ids : List NodeId) (tree : BlockTree) (content : Content) : Prop where
  id : package.id = content.id
  name : package.name = content.name
  pools : ∀ which, (package.slot? which).map PoolSlot.pool = content.pool? which
  chunks : List.Forall₂ (fun chunk part => chunk.1 = part.1 ∧ chunk.2 ∈ ids ∧ tree.Spells chunk.2 part.2)
    package.chunks content.chunks

theorem Tells.content_eq {content : Content} (tells : package.Tells ids tree content) :
    package.content tree = content := by
  have types := tells.pools .types
  have keys := tells.pools .keys
  have chunks : package.contents tree = content.chunks := by
    unfold contents
    have pairs := tells.chunks
    generalize package.chunks = row, content.chunks = parts at pairs
    induction pairs with
    | nil => rfl
    | cons here _ ih => rw [List.map_cons, ih, here.1, here.2.2.toBytes]
  cases content
  rw [Package.content, chunks, tells.id, tells.name]
  congr

/-- The chunks of a package stand in another tree where the nodes of the row spell the same. -/
theorem Tells.chunks_imp {content : Content} {more : List NodeId} (tells : package.Tells ids tree content)
    (within : ids ⊆ more) (spells : ∀ id bytes, id ∈ ids → tree.Spells id bytes → final.Spells id bytes) :
    List.Forall₂ (fun chunk part => chunk.1 = part.1 ∧ chunk.2 ∈ more ∧ final.Spells chunk.2 part.2)
      package.chunks content.chunks := by
  apply tells.chunks.imp
  rintro _ _ ⟨type, inside, here⟩
  exact ⟨type, within inside, spells _ _ inside here⟩

/-- A patch that writes the offset of a piece into the header, where the header has it already. -/
def PoolPatch (header : NodeId) (front : List UInt8) (rows : List (List UInt8)) (ids : List NodeId)
    (patch : Patch) : Prop :=
  ∃ which place target, patch = .relativeOffset target (.word header (PackagePool.position which)) ∧
    ids[place]? = some target ∧
      (Bytes.word front (PackagePool.position which)).toNat = front.length + (rows.take place).flatten.length

/-- A package stands in a tree as a header and a row of pieces. -/
structure Stored (package : Package) (front : List UInt8) (rows : List (List UInt8)) (ids : List NodeId)
    (tree : BlockTree) : Prop where
  headed : ∃ patches, tree.Headed package.node package.header front ids
    (.size (.word package.header 4) :: patches) ∧ ∀ patch ∈ patches, PoolPatch package.header front rows ids patch
  row : List.Forall₂ tree.Spells ids rows
  still : ∀ which slot, package.slot? which = some slot → slot.pool.modified = false
  tells : package.Tells ids tree (.ofBytes front rows)

namespace Stored

theorem children (stored : package.Stored front rows ids tree) :
    tree.children package.node = package.header :: ids := by
  obtain ⟨_, headed, _⟩ := stored.headed
  exact headed.children

/-- A package stands in a tree as long as the nodes that it owns are the same. -/
theorem frame (stored : package.Stored front rows ids tree) (forest : tree.Forest) (forest' : final.Forest)
    (same : ∀ id, tree.Owns package.node id → final.core? id = tree.core? id) :
    package.Stored front rows ids final := by
  have owns (id : NodeId) (inside : id ∈ package.header :: ids) : tree.Owns package.node id :=
    BlockTree.Owns.top.of_mem_children (stored.children ▸ inside)
  have spells (id : NodeId) (bytes : List UInt8) (inside : id ∈ ids) (here : tree.Spells id bytes) :
      final.Spells id bytes :=
    here.frame forest forest' fun other owned =>
      same other ((owns id (List.mem_cons_of_mem _ inside)).trans owned)
  obtain ⟨patches, headed, patched⟩ := stored.headed
  exact {
    headed := ⟨patches, headed.frame (same _ .top) (same _ (owns _ List.mem_cons_self)), patched⟩
    row := forall₂_imp_mem stored.row fun id inside bytes _ here => spells id bytes inside here
    still := stored.still
    tells := {
      id := stored.tells.id
      name := stored.tells.name
      pools := stored.tells.pools
      chunks := stored.tells.chunks_imp (List.Subset.refl _) spells } }

/-- The offset of a pool is what its patch counts. -/
theorem wordPatch (stored : package.Stored front rows ids tree) (long : minHeaderSize ≤ front.length) {patch : Patch}
    (patched : PoolPatch package.header front rows ids patch) :
    tree.WordPatch package.node package.header front patch := by
  obtain ⟨patches, headed, _⟩ := stored.headed
  obtain ⟨which, place, target, rfl, found, offset⟩ := patched
  unfold minHeaderSize at long
  have split : ids = ids.take place ++ target :: ids.drop (place + 1) := by
    obtain ⟨inside, here⟩ := List.getElem?_eq_some_iff.1 found
    rw [← here, ← List.drop_eq_getElem_cons inside, List.take_append_drop]
  have target_mem : target ∈ ids := List.mem_of_getElem? found
  refine ⟨PackagePool.position which, rfl, ?_, ?_, ?_⟩
  · cases which
    · change 268 + 4 ≤ _
      omega
    · change 276 + 4 ≤ _
      omega
  · rintro _ ⟨⟩
    exact BlockTree.Owns.top.of_mem_children (headed.children ▸ List.mem_cons_of_mem _ target_mem)
  · refine ⟨package.header :: ids.take place, ids.drop (place + 1), ?_, ?_⟩
    · rw [headed.children, List.cons_append, ← split]
    · obtain ⟨leaf, live, kind, _⟩ := headed.header
      rw [List.flatMap_cons, BlockTree.toBytes_leaf live kind,
        BlockTree.flatMap_toBytes (List.forall₂_take place stored.row), List.length_append, offset]

/-- A whole package spells its bytes. -/
theorem spells (stored : package.Stored front rows ids tree) (forest : tree.Forest)
    (framed : Framed front rows) : tree.Spells package.node (front ++ rows.flatten) := by
  obtain ⟨patches, headed, patched⟩ := stored.headed
  have long := framed.long
  unfold minHeaderSize at long
  refine headed.spells forest stored.row fun patch inside => ?_
  rcases List.mem_cons.1 inside with rfl | inside
  · refine ⟨4, rfl, by omega, by rintro _ ⟨⟩, ?_⟩
    change _ = (tree.toBytes package.node).length
    rw [headed.toBytes forest stored.row, ← framed.isChunk.size, Bytes.word_append (by omega)]
  · exact stored.wordPatch framed.long (patched patch inside)

/-- A piece is added to a package. -/
theorem add (stored : package.Stored front rows ids tree) (linked : tree.Linked) {owner : Node}
    (found : tree.node? package.node = some owner) {bytes : List UInt8} {more : List Patch}
    (added : PieceAdded package.node owner bytes more tree final)
    (patched : ∀ patch ∈ more, PoolPatch package.header front (rows ++ [bytes]) (ids ++ [tree.fresh]) patch)
    (node : image.node = package.node) (header : image.header = package.header)
    (still : ∀ which slot, image.slot? which = some slot → slot.pool.modified = false)
    (tells : (∀ id bytes, id ∈ ids → tree.Spells id bytes → final.Spells id bytes) →
      image.Tells (ids ++ [tree.fresh]) final (.ofBytes front (rows ++ [bytes]))) :
    image.Stored front (rows ++ [bytes]) (ids ++ [tree.fresh]) final := by
  obtain ⟨patches, headed, earlier⟩ := stored.headed
  obtain ⟨_, here, container, children, patches'⟩ := headed.node
  cases here.symm.trans found
  have low (id : NodeId) (inside : id ∈ package.header :: ids) : package.node.index < id.index :=
    linked.lt (BlockTree.shape?_of_some found) (by
      change id ∈ owner.children
      rwa [children])
  have same (other : NodeId) (behind : package.node.index < other.index) (old : other.index < tree.nodes.size) :
      final.core? other = tree.core? other :=
    added.others other old (BlockTree.ne_of_index_lt behind).symm
  have spells (id : NodeId) (bytes : List UInt8) (inside : id ∈ ids) (here : tree.Spells id bytes) :
      final.Spells id bytes :=
    here.frame_behind linked added.linked fun other behind =>
      same other (Nat.lt_of_lt_of_le (low id (List.mem_cons_of_mem _ inside)) behind)
  have length := stored.row.length_eq
  refine ⟨⟨patches ++ more, ?_, fun patch inside => ?_⟩, ?_, still, tells spells⟩
  · rw [node, header]
    obtain ⟨leaf, live, kind, none⟩ := headed.header
    obtain ⟨leaf', live', kind', _, none'⟩ := BlockTree.node_of_core?
      (same _ (low _ List.mem_cons_self) (BlockTree.index_lt live)) live
    exact {
      node := ⟨_, added.above, container, by rw [children]; rfl, by rw [patches']; rfl⟩
      header := ⟨leaf', live', kind'.trans kind, none'.trans none⟩ }
  · rw [header]
    rcases List.mem_append.1 inside with inside | inside
    · obtain ⟨which, place, target, rfl, there, offset⟩ := earlier patch inside
      obtain ⟨bound, _⟩ := List.getElem?_eq_some_iff.1 there
      refine ⟨which, place, target, rfl, ?_, ?_⟩
      · rw [List.getElem?_append_left bound, there]
      · rw [offset, List.take_append_of_le_length (by omega)]
    · exact patched patch inside
  · exact forall₂_append_singleton
      (forall₂_imp_mem stored.row fun id inside bytes _ here => spells id bytes inside here) added.spells

end Stored

end Package
end DexArsc.Resource
