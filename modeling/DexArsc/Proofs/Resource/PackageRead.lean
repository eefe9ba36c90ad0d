/-
Packages that are read into a block tree: what each piece of the data adds to the tree and to the package.
-/

import DexArsc.Proofs.Resource.Houses

namespace DexArsc

namespace Step.Ensures

variable {α state : Type} {step : α → Step state PUnit} {holds failed : state → Prop}

/-- What every step of a row keeps holds behind the row. -/
theorem forM {values : List α} (each : ∀ value ∈ values, ∀ initial, holds initial →
      (step value).Ensures initial (fun _ => holds) failed) {initial : state} (start : holds initial) :
    (values.forM step).Ensures initial (fun _ => holds) failed := by
  induction values generalizing initial with
  | nil => exact start
  | cons value rest ih =>
      rw [forM_cons]
      exact (each value List.mem_cons_self initial start).bind fun _ _ here =>
        ih (fun value inside => each value (List.mem_cons_of_mem _ inside)) here

end Step.Ensures

namespace Resource

theorem Reader.pieces_ensures {state : Type} {visit : Piece → Step state Unit} {holds failed : state → Prop}
    {stop : Nat} {cursor : Cursor} {initial : state}
    (each : ∀ piece, ∀ initial, holds initial → (visit piece).Ensures initial (fun _ => holds) failed)
    (last : ∀ final, holds final → failed final) (start : holds initial) :
    (Reader.pieces stop cursor visit).Ensures initial (fun _ => holds) failed := by
  unfold Reader.pieces
  exact (Step.Ensures.forM (fun piece _ => each piece) start).bind fun _ between here =>
    .monadLift (fun _ _ => here) (last between here)

namespace Package

variable {tree final : BlockTree} {package : Package} {options : ReadOptions}
  {pool? : ChunkHeader → Option PackagePool}

/-- A leaf is added behind the children of a node. -/
structure LeafAdded (parent : NodeId) (tag : UInt32) (bytes : Bytes) (owner : Node)
    (tree between final : BlockTree) : Prop where
  pushed : tree.Pushed { kind := .leaf bytes, tag, length := UInt64.ofNat bytes.size } between
  attached : between.Attached parent tree.fresh owner
    { kind := .leaf bytes, tag, length := UInt64.ofNat bytes.size } final

theorem addLeaf_ok (linked : tree.Linked) {parent : NodeId} {owner : Node}
    (found : tree.node? parent = some owner) (container : owner.kind = .container) (tag : UInt32)
    (bytes : Bytes) : ∃ between final, BlockTree.newLeaf tag bytes tree = .ok tree.fresh between ∧
      BlockTree.addChild parent tree.fresh between = .ok () final ∧
        LeafAdded parent tag bytes owner tree between final := by
  have order : parent.index < tree.fresh.index := BlockTree.index_lt found
  obtain ⟨between, run, pushed⟩ := linked.newLeaf tag bytes
  obtain ⟨final, run', attached⟩ := pushed.linked.addChild
    ((pushed.others _ (BlockTree.ne_of_index_lt order)).trans found) container pushed.fresh rfl order
  exact ⟨between, final, run, run', pushed, attached⟩

/-- What a piece of the data adds to a tree and to a package. -/
inductive Adds (options : ReadOptions) (pool? : ChunkHeader → Option PackagePool) (tree : BlockTree)
    (package : Package) (owner : Node) : Piece → BlockTree → Package → Prop
  | gap {bytes : Bytes} {between final : BlockTree}
    (added : LeafAdded package.node gapTag bytes owner tree between final) :
    Adds options pool? tree package owner (.gap bytes) final package
  | pool {chunk : Chunk} {which : PackagePool} {pool : StringPool} {final : BlockTree}
    (place : pool? chunk.header = some which) (read : StringPool.read chunk.bytes = .ok pool)
    (added : PoolAdded package which chunk.bytes owner tree final) :
    Adds options pool? tree package owner (.chunk chunk) final
      (package.withSlot which { pool, node := tree.fresh })
  | chunk {chunk : Chunk} {between final : BlockTree} (place : pool? chunk.header = none)
    (accepted : chunk.header.accept options = .ok ())
    (added : ChunkAdded package.node chunk owner tree between final) :
    Adds options pool? tree package owner (.chunk chunk) final
      (package.withChunk chunk.header.type tree.fresh)

/-- A piece that a package refuses: a pool that cannot be read, or a chunk that is not accepted. -/
def Refused (options : ReadOptions) (pool? : ChunkHeader → Option PackagePool) : Piece → Prop
  | .gap _ => False
  | .chunk chunk => match pool? chunk.header with
    | some _ => ∀ pool, StringPool.read chunk.bytes ≠ .ok pool
    | none => chunk.header.accept options ≠ .ok ()

/-- A step on the tree that a package is read into. -/
def inTree {α : Type} : Step BlockTree α → Step (BlockTree × Package) α :=
  Step.onPart Prod.fst fun tree (_, package) => (tree, package)

theorem inTree_ok {α : Type} {step : Step BlockTree α} {value : α} (run : step tree = .ok value final)
    (package : Package) : inTree step (tree, package) = .ok value (final, package) :=
  Step.onPart_eq_ok.2 ⟨final, run, rfl⟩

/-- A piece of a package is read and becomes a child of its node. -/
def readPiece (options : ReadOptions) (pool? : ChunkHeader → Option PackagePool) (node : NodeId)
    (piece : Piece) : Step (BlockTree × Package) Unit := do
  let child ← match piece with
    | .gap bytes => inTree (BlockTree.newLeaf gapTag bytes)
    | .chunk chunk => readChunk options pool? chunk
  inTree (BlockTree.addChild node child)

/-- The pieces behind the header of a package are read. -/
def readBehind (options : ReadOptions) (head : Head) (cursor : Cursor) : Step BlockTree Package := do
  let (node, header) ← newNode head.bytes
  let package : Package := { id := head.id, name := head.name, node, header }
  match Step.within (title head.id) (Reader.pieces head.chunk.stop cursor
      (readPiece options (poolAt? head.types head.keys) node)) (← get, package) with
  | .ok _ (tree, package) => set tree; return package
  | .error fault (tree, _) => set tree; throw fault

theorem read_of_head {data : Bytes} {head : Head} {cursor : Cursor}
    (found : readHead { data } = .ok head cursor) (options : ReadOptions) :
    read data options = readBehind options head cursor := by
  unfold read
  rw [found]
  rfl

theorem read_of_fault {data : Bytes} {fault : Fault} {cursor : Cursor}
    (found : readHead { data } = .error fault cursor) (options : ReadOptions) (tree : BlockTree) :
    read data options tree = .error fault tree := by
  unfold read
  rw [found]
  rfl

theorem readPiece_ensures (linked : tree.Linked) {owner : Node}
    (found : tree.node? package.node = some owner) (container : owner.kind = .container) (piece : Piece) :
    (readPiece options pool? package.node piece).Ensures (tree, package)
      (fun _ final => Adds options pool? tree package owner piece final.1 final.2)
      (fun _ => Refused options pool? piece) := by
  cases piece with
  | gap bytes =>
      obtain ⟨between, final, run, run', added⟩ := addLeaf_ok linked found container gapTag bytes
      have whole : readPiece options pool? package.node (.gap bytes) (tree, package) =
          .ok () (final, package) :=
        (Step.bind_ok (inTree_ok run package)).trans (inTree_ok run' package)
      exact .of_ok whole (.gap added)
  | chunk chunk =>
      unfold Refused
      cases place : pool? chunk.header with
      | some which =>
          cases read : StringPool.read chunk.bytes with
          | error fault =>
              have whole : readPiece options pool? package.node (.chunk chunk) (tree, package) =
                  .error fault (tree, package) := by
                unfold readPiece readChunk
                simp only [Step.bind_apply, Step.get_apply, place, read, Step.monadLift_error]
              refine .of_error whole ?_
              simp [place, read]
          | ok pool =>
              obtain ⟨between, final, run, run', added⟩ := attachPool_ok linked which chunk.bytes found
                container
              have leaf : readChunk options pool? chunk (tree, package) =
                  .ok tree.fresh (between, package.withSlot which { pool, node := tree.fresh }) := by
                unfold readChunk
                simp only [Step.bind_apply, Step.get_apply, place, read, Step.monadLift_ok]
                have part := inTree_ok run package
                unfold inTree at part
                rw [part]
                rfl
              have whole : readPiece options pool? package.node (.chunk chunk) (tree, package) =
                  .ok () (final, package.withSlot which { pool, node := tree.fresh }) :=
                (Step.bind_ok leaf).trans (inTree_ok run' _)
              exact .of_ok whole (.pool place read added)
      | none =>
          cases accept : chunk.header.accept options with
          | error fault =>
              have whole : readPiece options pool? package.node (.chunk chunk) (tree, package) =
                  .error fault (tree, package) := by
                unfold readPiece readChunk
                simp only [Step.bind_apply, Step.get_apply, place, accept, Step.monadLift_error]
              exact .of_error whole (by simp [place, accept])
          | ok =>
              obtain ⟨between, final, run, run', added⟩ := addChunk_ok linked found container chunk
              have kept : readChunk options pool? chunk (tree, package) =
                  .ok tree.fresh (between, package.withChunk chunk.header.type tree.fresh) := by
                unfold readChunk
                simp only [Step.bind_apply, Step.get_apply, place, accept, Step.monadLift_ok]
                have part := inTree_ok run package
                unfold inTree at part
                rw [part]
                rfl
              have whole : readPiece options pool? package.node (.chunk chunk) (tree, package) =
                  .ok () (final, package.withChunk chunk.header.type tree.fresh) :=
                (Step.bind_ok kept).trans (inTree_ok run' _)
              exact .of_ok whole (.chunk place accept added)

/-- A package stands in fresh nodes of a tree, without a parent. -/
structure Fresh (initial : BlockTree) (package : Package) (tree : BlockTree) : Prop where
  grows : BlockTree.Grows initial.nodes.size initial tree
  low : initial.nodes.size ≤ package.node.index
  orphan : tree.parent? package.node = none
  held : package.Held tree

theorem LeafAdded.held {tag : UInt32} {bytes : Bytes} {owner : Node} {between : BlockTree}
    (added : LeafAdded package.node tag bytes owner tree between final) (held : package.Held tree)
    (linked : tree.Linked) (found : tree.node? package.node = some owner)
    (container : owner.kind = .container) : package.Held final := by
  have pushed := added.pushed
  have order : package.node ≠ tree.fresh := BlockTree.ne_of_index_lt (BlockTree.index_lt found)
  refine (held.grown linked pushed.grows).attached added.attached pushed.linked (fun owned => ?_) container
    ((pushed.others _ order).trans found)
  rcases owned.up pushed.linked.toForest with same | ⟨parent, above, _⟩
  · exact order same.symm
  · rw [BlockTree.parent?, pushed.fresh] at above
    cases above

theorem PoolAdded.held {which : PackagePool} {bytes : Bytes} {owner : Node}
    (added : PoolAdded package which bytes owner tree final) (held : package.Held tree)
    (linked : tree.Linked) (found : tree.node? package.node = some owner)
    (container : owner.kind = .container) : package.Held final := by
  have before := BlockTree.shape?_of_some found
  refine held.frame linked ⟨_, BlockTree.shape?_of_some added.owner, Node.content_eq_container.2 container,
    fun id inside => List.mem_append_left _ ?_⟩ fun id owned apart => ?_
  · rwa [BlockTree.children_of_shape? before] at inside
  · refine BlockTree.shape?_of_node? (added.others id apart ?_)
    rintro rfl
    obtain ⟨below, live⟩ := owned.live linked.toForest before
    rw [BlockTree.shape?_fresh] at live
    cases live

/-- A piece that is added leaves a fresh package fresh. -/
theorem Adds.fresh {initial : BlockTree} {owner : Node} {piece : Piece} {image : Package}
    (adds : Adds options pool? tree package owner piece final image) (fresh : package.Fresh initial tree)
    (found : tree.node? package.node = some owner) (container : owner.kind = .container) :
    image.Fresh initial final ∧ image.node = package.node := by
  have linked := fresh.grows.linked
  have orphan : owner.parent = none := by
    have orphan := fresh.orphan
    rwa [BlockTree.parent?, found] at orphan
  have parent {node : Node} (here : final.node? package.node = some node)
      (same : node.parent = owner.parent) : final.parent? package.node = none := by
    rw [BlockTree.parent?, here]
    exact same.trans orphan
  have low := fresh.low
  cases adds with
  | gap added =>
      exact ⟨⟨fresh.grows.trans ((added.pushed.grows.anti fresh.grows.size).trans
        (added.attached.grows low)), low, parent added.attached.above rfl,
          added.held fresh.held linked found container⟩, rfl⟩
  | @pool chunk which pool final place read added =>
      have same (slot : PoolSlot) : (package.withSlot which slot).node = package.node := by cases which <;> rfl
      have chunks (slot : PoolSlot) : (package.withSlot which slot).chunks = package.chunks := by
        cases which <;> rfl
      refine ⟨⟨fresh.grows.trans (added.grows low (BlockTree.index_lt found)), ?_, ?_, ?_⟩, same _⟩
      · rw [same]
        exact low
      · rw [same]
        exact parent added.owner rfl
      · exact (added.held fresh.held linked found container).of_same (same _) (chunks _)
  | chunk place accepted added =>
      exact ⟨⟨fresh.grows.trans ((added.kept.grows.anti fresh.grows.size).trans
        (added.attached.grows low)), low, parent added.attached.above rfl,
          fresh.held.withChunk linked found container added _⟩, rfl⟩

/-- A package that is read stands in fresh nodes. -/
theorem read_fresh (linked : tree.Linked) {data : Bytes}
    (run : read data options tree = .ok package final) : package.Fresh tree final := by
  cases front : readHead { data } with
  | error fault cursor =>
      rw [read_of_fault front] at run
      cases run
  | ok head cursor =>
      rw [read_of_head front] at run
      obtain ⟨first, made, added⟩ := newNode_ok linked head.bytes
      let empty : Package := { id := head.id, name := head.name, node := tree.fresh, header := ⟨tree.nodes.size + 1⟩ }
      have start : empty.Fresh tree first := by
        refine ⟨added.grows, Nat.le_refl _, ?_, ⟨⟨_, BlockTree.shape?_of_some added.node, rfl⟩, ?_, ?_, ?_⟩⟩
        · rw [BlockTree.parent?, added.node]
          rfl
        · simp [empty]
        · simp [empty]
        · simp [empty]
      have ensures := @Reader.pieces_ensures _ (readPiece options (poolAt? head.types head.keys) tree.fresh)
        (fun state => state.2.Fresh tree state.1 ∧ state.2.node = tree.fresh) (fun _ => True)
        head.chunk.stop cursor (first, empty) (by
          rintro piece state ⟨fresh, node⟩
          obtain ⟨owner, found, container⟩ := fresh.held.owner
          rw [← node]
          refine (readPiece_ensures fresh.grows.linked found container piece).imp (fun _ state adds => ?_)
            fun _ _ => trivial
          obtain ⟨behind, same⟩ := adds.fresh fresh found container
          exact ⟨behind, same⟩) (fun _ _ => trivial) ⟨start, rfl⟩
      unfold readBehind at run
      rw [Step.bind_ok made] at run
      obtain ⟨_, _, here, run⟩ := Step.bind_eq_ok.1 run
      cases here
      generalize pieces : Step.within _ _ _ = result at run
      cases result with
      | ok cursor state =>
          cases run
          exact (ensures.ok (Step.within_eq_ok.1 pieces)).1
      | error fault state => cases run

end Package
end Resource
end DexArsc
