/-
Trees of blocks in an arena. A container owns an ordered list of children and has no bytes of
its own, a leaf holds bytes, and a padding node brings its next sibling to a boundary. Header
fields that depend on the final layout are patches of a container.
-/

import DexArsc.Bytes.Word

namespace DexArsc

/-- A node's place in the arena. The place of a removed node is never used again. -/
structure NodeId where
  index : Nat
  deriving DecidableEq, Inhabited, Hashable

/-- The content of a node. -/
inductive NodeKind
  | container
  | leaf (bytes : Bytes)
  | pad (padding : Padding)

/-- The width of a header field. -/
inductive FieldWidth
  | byte
  | half
  | word
  deriving DecidableEq

namespace FieldWidth

/-- The number of bytes of a field. -/
def size : FieldWidth → Nat
  | byte => 1
  | half => 2
  | word => 4

/-- The width with a number of bytes. Every size besides one and two is that of a word. -/
def ofSize : Nat → FieldWidth
  | 1 => byte
  | 2 => half
  | _ => word

/-- The slot that a field's value has to fit. -/
def slot : FieldWidth → Slot
  | byte => .byte
  | half => .half
  | word => .word

end FieldWidth

/-- A little-endian field inside a leaf. -/
structure Field where
  node : NodeId
  position : Nat
  width : FieldWidth
  deriving DecidableEq

namespace Field

/-- A 16-bit field. -/
def half (node : NodeId) (position : Nat) : Field :=
  { node, position, width := .half }

/-- A 32-bit field. -/
def word (node : NodeId) (position : Nat) : Field :=
  { node, position, width := .word }

end Field

/-- A header field that a refresh computes. -/
inductive Patch
  /-- The length of the container that owns the patch. -/
  | size (field : Field)
  /-- The number of children of a node. -/
  | childCount (target : NodeId) (field : Field)
  /-- The offset of a node from the container that owns the patch, or zero for a node without
  a parent. -/
  | relativeOffset (target : NodeId) (field : Field)
  /-- The length of a node. -/
  | length (target : NodeId) (field : Field)
  deriving DecidableEq

/-- A node with its links and with its place as of the last refresh. -/
structure Node where
  kind : NodeKind
  tag : UInt32
  parent : Option NodeId := none
  children : List NodeId := []
  offset : UInt64 := 0
  length : UInt64 := 0
  patches : List Patch := []

/-- An arena of nodes. A removed node leaves an empty place. -/
structure BlockTree where
  nodes : Array (Option Node) := #[]
  deriving Inhabited

namespace BlockTree

/-- The live node at a place. -/
def node? (tree : BlockTree) (id : NodeId) : Option Node :=
  tree.nodes[id.index]?.join

/-- The live node at a place, which has to exist. -/
def node (tree : BlockTree) (id : NodeId) : Except Fault Node :=
  match tree.node? id with
  | some node => .ok node
  | none => fail (.tree (.notLive id.index))

/-- A node is live from its creation to its removal. -/
def isLive (tree : BlockTree) (id : NodeId) : Bool :=
  (tree.node? id).isSome

/-- The parent of a live node. -/
def parent? (tree : BlockTree) (id : NodeId) : Option NodeId :=
  (tree.node? id).bind Node.parent

/-- The children of a live node. -/
def children (tree : BlockTree) (id : NodeId) : List NodeId :=
  match tree.node? id with
  | some node => node.children
  | none => []

/-- The length of a node as of the last refresh, or zero for a removed node. -/
def byteCount (tree : BlockTree) (id : NodeId) : UInt64 :=
  match tree.node? id with
  | some node => node.length
  | none => 0

/-- The bytes of a leaf. -/
def leaf (tree : BlockTree) (id : NodeId) : Except Fault Bytes := do
  match (← tree.node id).kind with
  | .leaf bytes => return bytes
  | _ => fail (.tree (.notLeaf id.index))

/-- The tree with one live node replaced. -/
def modifyNode (tree : BlockTree) (id : NodeId) (change : Node → Node) : BlockTree :=
  { tree with nodes := tree.nodes.modify id.index (Option.map change) }

/-- A fresh node without parent and children. -/
def allocate (kind : NodeKind) (tag : UInt32) : Step BlockTree NodeId :=
  modifyGet fun tree =>
    let length := match kind with
      | .leaf bytes => UInt64.ofNat bytes.size
      | _ => 0
    (⟨tree.nodes.size⟩, { tree with nodes := tree.nodes.push (some { kind, tag, length }) })

/-- A fresh container. -/
def newContainer (tag : UInt32) : Step BlockTree NodeId :=
  allocate .container tag

/-- A fresh leaf. -/
def newLeaf (tag : UInt32) (bytes : Bytes) : Step BlockTree NodeId :=
  allocate (.leaf bytes) tag

/-- A fresh padding node. -/
def newPad (padding : Padding) : Step BlockTree NodeId :=
  allocate (.pad padding) 0

/-- The bytes of a leaf are changed in place. The recorded length waits for the next refresh. -/
def modifyLeaf (id : NodeId) (change : Bytes → Bytes) : Step BlockTree Unit := do
  let _ ← (← get).leaf id
  modify fun tree => tree.modifyNode id fun node =>
    match node.kind with
    | .leaf bytes => { node with kind := .leaf (change bytes) }
    | _ => node

/-- The bytes and the recorded length of a leaf are replaced. -/
def setLeaf (id : NodeId) (bytes : Bytes) : Step BlockTree Unit := do
  let _ ← (← get).leaf id
  modify fun tree => tree.modifyNode id fun node =>
    { node with kind := .leaf bytes, length := UInt64.ofNat bytes.size }

/-- A node receives a patch, after those that it has. -/
def addPatch (id : NodeId) (patch : Patch) : Step BlockTree Unit := do
  let _ ← (← get).node id
  modify fun tree => tree.modifyNode id fun node =>
    { node with patches := node.patches ++ [patch] }

/-- A walk from a node towards the root, of at most `fuel` nodes. -/
def ancestors (tree : BlockTree) : (fuel : Nat) → Option NodeId → List NodeId
  | 0, _ => []
  | _, none => []
  | fuel + 1, some id => id :: ancestors tree fuel (tree.parent? id)

/-- A node's ancestors are the node itself, its parent and the parent's ancestors. -/
def isAncestor (tree : BlockTree) (candidate id : NodeId) : Bool :=
  (tree.ancestors (tree.nodes.size + 1) (some id)).contains candidate

/-- A node without a parent becomes a child at a position. -/
def insertChild (parent : NodeId) (position : Nat) (child : NodeId) : Step BlockTree Unit := do
  let tree ← get
  if (← tree.node child).parent.isSome then
    fail (.tree (.hasParent child.index))
  if tree.isAncestor child parent then
    fail (.tree (.cyclic child.index))
  let owner ← tree.node parent
  let .container := owner.kind | fail (.tree (.cannotOwn parent.index))
  if owner.children.length < position then
    fail (.tree (.childBeyond position owner.children.length))
  modify fun tree => tree.modifyNode parent fun node =>
    { node with children := node.children.insertIdx position child }
  modify fun tree => tree.modifyNode child fun node => { node with parent := some parent }

/-- A node without a parent becomes the last child. -/
def addChild (parent child : NodeId) : Step BlockTree Unit := do
  insertChild parent (← (← get).node parent).children.length child

/-- A node leaves its parent and keeps its own children. -/
def detach (id : NodeId) : Step BlockTree Unit := do
  match (← (← get).node id).parent with
  | none => return
  | some parent =>
    modify fun tree => tree.modifyNode id fun node => { node with parent := none }
    let _ ← (← get).node parent
    modify fun tree => tree.modifyNode parent fun node =>
      { node with children := node.children.filter (· ≠ id) }

/-- The tree without a node and its descendants, down to a depth of `fuel`. -/
def free (tree : BlockTree) : (fuel : Nat) → NodeId → BlockTree
  | 0, _ => tree
  | fuel + 1, id =>
    match tree.node? id with
    | none => tree
    | some node =>
      node.children.foldl (fun tree child => free tree fuel child)
        { tree with nodes := tree.nodes.setIfInBounds id.index none }

/-- A node leaves its parent and is removed with all of its descendants. -/
def remove (id : NodeId) : Step BlockTree Unit := do
  detach id
  modify fun tree => tree.free (tree.nodes.size + 1) id

/-- The children of a node are sorted by a key. Children with equal keys keep their order. -/
def sortChildren {κ : Type} (parent : NodeId) (le : κ → κ → Bool) (key : BlockTree → NodeId → κ) :
    Step BlockTree Unit := do
  let tree ← get
  let keyed := (← tree.node parent).children.map fun child => (key tree child, child)
  let sorted := keyed.mergeSort fun a b => le a.1 b.1
  modify fun tree => tree.modifyNode parent fun node =>
    { node with children := sorted.map Prod.snd }

end BlockTree
end DexArsc
