/-
Resource tables, new or read: their packages are housed below the container for the packages.
-/

import DexArsc.Proofs.Resource.Houses
import DexArsc.Proofs.Resource.PackageRead
import DexArsc.Resource.Table

namespace DexArsc

namespace BlockTree

variable {tree final : BlockTree}

/-- A node that became a child was a live node without a parent. -/
theorem attached_of_ok (linked : tree.Linked) {parent child : NodeId} (order : parent.index < child.index)
    (run : addChild parent child tree = .ok () final) : ∃ owner below, tree.node? parent = some owner ∧
      owner.kind = .container ∧ tree.node? child = some below ∧ below.parent = none ∧
        tree.Attached parent child owner below final := by
  obtain ⟨_, attaches⟩ := (addChild_ensures parent child tree).ok run
  obtain ⟨owner, below, above, container, live, orphan, _⟩ := attaches_iff.1 attaches
  obtain ⟨final', run', attached⟩ := linked.addChild above container live orphan order
  cases run.symm.trans run'
  exact ⟨owner, below, above, container, live, orphan, attached⟩

end BlockTree

namespace Resource

variable {tree final : BlockTree} {node : NodeId} {packages : List Package}

/-- A node above the container receives a child. -/
theorem Houses.above (houses : Houses tree node packages) {root child : NodeId} {owner below : Node}
    (attached : tree.Attached root child owner below final)
    (live : tree.node? child = some below) (orphan : below.parent = none) (order : root.index < node.index) :
    Houses final node packages where
  linked := attached.linked
  node := by
    obtain ⟨shape, here, container, children⟩ := houses.node
    have different := (BlockTree.ne_of_index_lt order).symm
    by_cases same : node = child
    · subst same
      rw [BlockTree.shape?_of_some live] at here
      cases here
      exact ⟨_, BlockTree.shape?_of_some attached.below, container, children⟩
    · exact ⟨shape, (BlockTree.shape?_of_node? (attached.others node different same)).trans here, container,
        children⟩
  held package inside := (houses.held package inside).of_owned houses.linked fun id owned => by
    have low := owned.index_le houses.linked
    have before := houses.low inside
    refine BlockTree.shape?_of_node? (attached.others id (BlockTree.ne_of_index_lt (by omega)).symm ?_)
    rintro rfl
    refine houses.not_owns_orphan inside ?_ owned
    rw [BlockTree.parent?, live]
    exact orphan

namespace Table

/-- The children of the container for the packages are the nodes of the packages, in their order, and
every chunk of a package has a header and a body below the package's node. -/
def Sound (table : Table) : Prop :=
  Houses table.tree table.packagesNode table.packages

/-- The header and the container for the packages are added to the root of a table. -/
structure HeaderAdded (parent : NodeId) (bytes : Bytes) (owner : Node) (tree final : BlockTree) : Prop where
  linked : final.Linked
  size : final.nodes.size = tree.nodes.size + 2
  root : final.node? parent = some { owner with
    children := owner.children ++ [tree.fresh]
    patches := owner.patches ++ [.size (.word tree.fresh 4)] ++
      [.childCount ⟨tree.nodes.size + 1⟩ (.word tree.fresh countPosition)] }
  header : final.node? tree.fresh = some {
    kind := .leaf bytes
    tag := ChunkType.table.tag
    parent := some parent
    length := UInt64.ofNat bytes.size }
  packages : final.node? ⟨tree.nodes.size + 1⟩ = some { kind := .container, tag := packagesTag }

theorem addHeader_ok (linked : tree.Linked) {root : NodeId} {owner : Node} (bytes : Bytes)
    (found : tree.node? root = some owner) (container : owner.kind = .container) : ∃ final,
      addHeader root bytes tree = .ok ⟨tree.nodes.size + 1⟩ final ∧ HeaderAdded root bytes owner tree final := by
  obtain ⟨first, second, run₁, run₂, leaf⟩ :=
    Package.addLeaf_ok linked found container ChunkType.table.tag bytes
  obtain ⟨third, run₃, pushed⟩ := leaf.attached.linked.newContainer packagesTag
  have size : second.nodes.size = tree.nodes.size + 1 := leaf.attached.size.trans leaf.pushed.size
  have fresh : second.fresh = ⟨tree.nodes.size + 1⟩ := by rw [BlockTree.fresh, size]
  have before : root.index < tree.nodes.size := BlockTree.index_lt found
  have rootFirst : root ≠ tree.fresh := BlockTree.ne_of_index_lt before
  have rootSecond : root ≠ second.fresh := BlockTree.ne_of_index_lt (by rw [fresh]; simp only; omega)
  have headSecond : tree.fresh ≠ second.fresh := BlockTree.ne_of_index_lt (by rw [fresh]; simp [BlockTree.fresh])
  obtain ⟨fourth, run₄, sized⟩ := pushed.linked.addPatch
    ((pushed.others _ rootSecond).trans leaf.attached.above) (.size (.word tree.fresh 4))
  obtain ⟨final, run₅, counted⟩ := sized.linked.addPatch sized.here
    (.childCount second.fresh (.word tree.fresh countPosition))
  refine ⟨final, ?_, ?_⟩
  · unfold addHeader
    rw [Step.bind_ok run₁, Step.bind_ok run₂, Step.bind_ok run₃, Step.bind_ok run₄, Step.bind_ok run₅, fresh]
    rfl
  · exact {
      linked := counted.linked
      size := by rw [counted.size, sized.size, pushed.size, size]
      root := by rw [counted.here, fresh, List.append_assoc]
      header := by
        rw [counted.others _ rootFirst.symm, sized.others _ rootFirst.symm, pushed.others _ headSecond,
          leaf.attached.below]
      packages := by
        rw [← fresh, counted.others _ rootSecond.symm, sized.others _ rootSecond.symm, pushed.fresh] }

/-- The header of a new table. -/
def newHeader : Bytes :=
  (Bytes.ofWord16 ChunkType.table.code ++ Bytes.ofWord16 (UInt16.ofNat headerSize) ++
    List.replicate (headerSize - 4) (0 : UInt8)).toArray

/-- The nodes of a new table. -/
structure Built (tree : BlockTree) : Prop where
  linked : tree.Linked
  root : tree.shape? ⟨0⟩ = some {
    content := .container
    children := [⟨1⟩, ⟨3⟩, ⟨2⟩]
    patches := [.size (.word ⟨1⟩ 4), .childCount ⟨2⟩ (.word ⟨1⟩ countPosition)] }
  header : tree.shape? ⟨1⟩ = some { content := .leaf, parent := some ⟨0⟩ }
  packages : tree.shape? ⟨2⟩ = some { content := .container, parent := some ⟨0⟩ }
  strings : tree.shape? ⟨3⟩ = some { content := .leaf, parent := some ⟨0⟩ }
  bytes : tree.leaf ⟨1⟩ = .ok newHeader

theorem build_ok : ∃ final, build {} = .ok (fun tree => {
    tree
    root := ⟨0⟩
    strings := .empty .utf8
    stringsNode := ⟨3⟩
    packagesNode := ⟨2⟩ }) final ∧ Built final := by
  obtain ⟨first, run₁, root⟩ := BlockTree.linked_empty.newContainer ChunkType.table.tag
  obtain ⟨second, run₂, header⟩ := addHeader_ok root.linked newHeader root.fresh rfl
  have one : first.fresh = ⟨1⟩ := by rw [BlockTree.fresh, root.size]; rfl
  have two : first.nodes.size + 1 = 2 := by rw [root.size]; rfl
  have size : second.nodes.size = 3 := by rw [header.size, root.size]; rfl
  rw [two] at run₂
  have headRoot := header.root
  have headPackages := header.packages
  have headLeaf := header.header
  rw [two] at headRoot headPackages
  rw [one] at headRoot headLeaf
  obtain ⟨third, fourth, run₃, run₄, strings⟩ := Package.addLeaf_ok header.linked headRoot rfl
    ChunkType.stringPool.tag (StringPool.empty .utf8).toChunk.toArray
  have three : second.fresh = ⟨3⟩ := by rw [BlockTree.fresh, size]
  have distinct {first second : Nat} (different : first ≠ second) : (⟨first⟩ : NodeId) ≠ ⟨second⟩ :=
    fun same => different (NodeId.eq_iff.1 same)
  have zero : ({} : BlockTree).fresh = ⟨0⟩ := rfl
  have pushed := strings.pushed
  have attached := strings.attached
  rw [three, zero] at attached
  have kept (id : NodeId) (notRoot : id ≠ ⟨0⟩) (notStrings : id ≠ ⟨3⟩) : fourth.node? id = second.node? id :=
    (attached.others id notRoot notStrings).trans (pushed.others id (three ▸ notStrings))
  obtain ⟨final, run₅, last⟩ := attached.linked.addChild attached.above rfl
    ((kept ⟨2⟩ (distinct (by omega)) (distinct (by omega))).trans headPackages) rfl (by simp)
  refine ⟨final, ?_, ?_⟩
  · unfold build
    rw [Step.bind_ok run₁]
    exact (Step.bind_ok run₂).trans ((Step.bind_ok run₃).trans ((Step.bind_ok run₄).trans
      ((Step.bind_ok run₅).trans (by rw [three]; rfl))))
  · have atHeader : final.node? ⟨1⟩ = _ := (last.others ⟨1⟩ (distinct (by omega)) (distinct (by omega))).trans
      ((kept ⟨1⟩ (distinct (by omega)) (distinct (by omega))).trans headLeaf)
    have atStrings : final.node? ⟨3⟩ = _ :=
      (last.others ⟨3⟩ (distinct (by omega)) (distinct (by omega))).trans attached.below
    exact {
      linked := last.linked
      root := BlockTree.shape?_of_some last.above
      header := BlockTree.shape?_of_some atHeader
      packages := BlockTree.shape?_of_some last.below
      strings := BlockTree.shape?_of_some atStrings
      bytes := BlockTree.leaf_eq_ok.2 ⟨_, atHeader, rfl⟩ }

theorem sound_empty {table : Table} (made : empty = .ok table) : table.Sound := by
  obtain ⟨final, run, built⟩ := build_ok
  unfold empty at made
  rw [run] at made
  cases made
  exact ⟨built.linked, ⟨_, built.packages, rfl, rfl⟩, by simp⟩

namespace Draft

variable {options : ReadOptions} {root : NodeId} {draft : Draft}

/-- The packages that have been read are housed below a container, which was created behind the root. -/
structure Housed (root node : NodeId) (draft : Draft) : Prop where
  houses : Houses draft.tree node draft.packages
  order : root.index < node.index

theorem Housed.lt (housed : Housed root node draft) : root.index < draft.tree.nodes.size := by
  obtain ⟨shape, found, _⟩ := housed.houses.node
  exact Nat.lt_trans housed.order (BlockTree.index_lt_of_shape? found)

theorem Housed.grown (housed : Housed root node draft)
    (grows : BlockTree.Grows draft.tree.nodes.size draft.tree final) :
    Housed root node { draft with tree := final } :=
  ⟨housed.houses.grown grows, housed.order⟩

theorem Housed.addChild_ensures (housed : Housed root node draft) {child : NodeId}
    (order : root.index < child.index) : (onTree (BlockTree.addChild root child)).Ensures draft
      (fun _ => Housed root node) fun _ => True := by
  have linked := housed.houses.linked
  cases run : BlockTree.addChild root child draft.tree with
  | error fault tree => exact .of_error (by rw [onTree, Step.onPart, run]) trivial
  | ok value tree =>
      obtain ⟨owner, below, _, _, live, orphan, attached⟩ := BlockTree.attached_of_ok linked order run
      refine .of_ok (by rw [onTree, Step.onPart, run]) ⟨?_, housed.order⟩
      exact housed.houses.above attached live orphan housed.order

theorem Housed.readStrings_ensures (housed : Housed root node draft) (chunk : Chunk) :
    (readStrings chunk).Ensures draft
      (fun child final => Housed root node final ∧ root.index < child.index) fun _ => True := by
  obtain ⟨tree, run, pushed⟩ := housed.houses.linked.newLeaf ChunkType.stringPool.tag chunk.bytes
  unfold readStrings
  refine .check trivial fun pool _ => .behind (Step.onPart_eq_ok.2 ⟨tree, run, rfl⟩) ?_
  exact Step.Ensures.of_ok rfl ⟨⟨housed.houses.grown pushed.grows, housed.order⟩, housed.lt⟩

theorem Housed.readPackage_ensures (housed : Housed root node draft) (chunk : Chunk) :
    (readPackage options node chunk).Ensures draft
      (fun child final => Housed root node final ∧ ∀ id, child = some id → root.index < id.index)
      fun _ => True := by
  unfold readPackage
  cases run : Package.read chunk.bytes options draft.tree with
  | error fault tree =>
      have fails : onTree (Package.read chunk.bytes options) draft = .error fault { draft with tree } := by
        rw [onTree, Step.onPart, run]
      exact .stop fails trivial
  | ok package tree =>
      have fresh := Package.read_fresh housed.houses.linked run
      have houses := housed.houses.grown fresh.grows
      refine .behind (Step.onPart_eq_ok.2 ⟨tree, run, rfl⟩) ?_
      obtain ⟨below, live, _⟩ := fresh.held.owner
      obtain ⟨owner, above, container, _⟩ := houses.owner
      have orphan : below.parent = none := by
        have orphan := fresh.orphan
        rwa [BlockTree.parent?, live] at orphan
      have order : node.index < package.node.index := by
        obtain ⟨_, found, _⟩ := housed.houses.node
        have := BlockTree.index_lt_of_shape? found
        have := fresh.low
        omega
      obtain ⟨final, run', attached⟩ := fresh.grows.linked.addChild above container live orphan order
      have housed' : Housed root node { draft with
          tree := final
          packages := draft.packages ++ [package] } :=
        ⟨houses.add fresh.held above live orphan attached, housed.order⟩
      refine .behind (Step.onPart_eq_ok.2 ⟨final, run', rfl⟩) (.of_ok rfl ⟨housed', fun id same => ?_⟩)
      split at same
      · cases same
        exact housed.order
      · cases same

theorem Housed.readChunk_ensures (housed : Housed root node draft) (chunk : Chunk) :
    (readChunk options node chunk).Ensures draft
      (fun child final => Housed root node final ∧ ∀ id, child = some id → root.index < id.index)
      fun _ => True := by
  unfold readChunk
  refine .behind (Step.get_apply _) ?_
  split
  · refine .map ((housed.readStrings_ensures chunk).imp (fun child final ⟨here, order⟩ => ⟨here, ?_⟩)
      fun _ _ => trivial)
    rintro id ⟨⟩
    exact order
  · split
    · exact housed.readPackage_ensures chunk
    · refine .check trivial fun _ _ => ?_
      obtain ⟨tree, run, kept⟩ := Chunk.keep_ok chunk housed.houses.linked
      have part : onTree chunk.keep draft = .ok draft.tree.fresh { draft with tree } :=
        Step.onPart_eq_ok.2 ⟨tree, run, rfl⟩
      refine .map (.of_ok part ⟨housed.grown kept.grows, ?_⟩)
      rintro id ⟨⟩
      exact housed.lt

theorem Housed.readPiece_ensures (housed : Housed root node draft) (piece : Piece) :
    (readPiece options root node piece).Ensures draft (fun _ => Housed root node) fun _ => True := by
  have behind (child : Option NodeId) (final : Draft)
      (holds : Housed root node final ∧ ∀ id, child = some id → root.index < id.index) :
      (child.forM fun node => onTree (BlockTree.addChild root node)).Ensures final
        (fun _ => Housed root node) fun _ => True := by
    cases child with
    | none => exact holds.1
    | some id => exact holds.1.addChild_ensures (holds.2 id rfl)
  unfold readPiece
  cases piece with
  | gap bytes =>
      obtain ⟨tree, run, pushed⟩ := housed.houses.linked.newLeaf gapTag bytes
      have part : onTree (BlockTree.newLeaf gapTag bytes) draft = .ok draft.tree.fresh { draft with tree } :=
        Step.onPart_eq_ok.2 ⟨tree, run, rfl⟩
      refine .behind (Step.map_eq_ok.2 ⟨_, part, rfl⟩) (behind _ _ ⟨housed.grown pushed.grows, ?_⟩)
      rintro id ⟨⟩
      exact housed.lt
  | chunk chunk => exact (housed.readChunk_ensures chunk).bind behind

end Draft

/-- What has been read of a table is sound as soon as it is a table. -/
theorem Draft.Housed.sound {root packagesNode : NodeId} {draft : Draft} (housed : Housed root packagesNode draft)
    {options : ReadOptions} {count : UInt32} {table : Table}
    (found : draft.table options count root packagesNode = .ok table) : table.Sound := by
  unfold Draft.table at found
  split at found
  · cases found
  · split at found
    · cases found
    · cases found
      exact housed.houses

/-- A finished draft is sound. -/
theorem readRest_ensures (options : ReadOptions) (header : ChunkHeader) (count : UInt32) (cursor : Cursor) :
    (readRest options header count cursor).Ensures {}
      (fun finish draft => ∀ table, finish draft = .ok table → table.Sound) fun _ => True := by
  obtain ⟨first, run₁, root⟩ := BlockTree.linked_empty.newContainer ChunkType.table.tag
  obtain ⟨second, run₂, added⟩ := addHeader_ok root.linked
    (cursor.data.extract 0 header.headerSize.toNat) root.fresh rfl
  have housed : Draft.Housed ({} : BlockTree).fresh ⟨first.nodes.size + 1⟩ { tree := second } :=
    ⟨⟨added.linked, ⟨_, BlockTree.shape?_of_some added.packages, rfl, rfl⟩, by simp⟩, Nat.succ_pos _⟩
  unfold readRest
  refine .behind (Step.onPart_eq_ok.2 ⟨first, run₁, rfl⟩) ?_
  refine .behind (Step.onPart_eq_ok.2 ⟨second, run₂, rfl⟩) ?_
  refine (Reader.pieces_ensures (fun piece draft here => here.readPiece_ensures piece)
    (fun _ _ => trivial) housed).bind fun _ draft housed => ?_
  refine .behind (Step.get_apply _) ?_
  split
  · exact (housed.addChild_ensures housed.order).bind fun _ final here => .of_ok rfl fun _ => here.sound
  · exact .of_ok rfl fun _ => housed.sound

theorem sound_read {data : Bytes} {options : ReadOptions} {table : Table}
    (run : read data options = .ok table) : table.Sound := by
  unfold read at run
  cases head : readHead options { data } with
  | error fault cursor =>
      rw [head] at run
      cases run
  | ok front cursor =>
      rw [head] at run
      have rest := readRest_ensures options front.1 front.2 cursor
      dsimp only at run
      split at run
      · cases run
      · rename_i behind
        exact rest.ok behind table run

end Table
end Resource
end DexArsc
