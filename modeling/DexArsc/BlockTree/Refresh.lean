/-
The refresh of a block tree and its serialized form. A refresh lays a subtree out from offset
zero and then writes the patches, those of the children before those of their parent.
-/

import DexArsc.BlockTree.Basic

namespace DexArsc.BlockTree

/-- A number is written into a field. -/
def writeField (field : Field) (value : Nat) : Step BlockTree Unit := do
  let bytes ← (← get).leaf field.node
  if bytes.size < field.position + field.width.size then
    fail (.tree (.patchOverrun field.position bytes.size))
  let value ← field.width.slot.narrow "header field" value
  let word := UInt32.ofNat value.toNat
  modifyLeaf field.node fun bytes =>
    bytes.overwrite field.position ((Bytes.ofWord32 word).take field.width.size)

/-- The number in a field. -/
def readField (tree : BlockTree) (field : Field) : Except Fault Nat := do
  let bytes ← tree.leaf field.node
  match bytes.getNumber? field.position field.width.size with
  | some value => return value
  | none => fail (.tree (.fieldBeyond field.position bytes.size))

/-- A subtree of at most `fuel` levels is laid out from an offset. The result is its end. Offsets and lengths are
counted modulo 2^64. -/
def layOut : (fuel : Nat) → NodeId → (offset : UInt64) → Step BlockTree UInt64
  | 0, id, _ => fail (.tree (.notLive id.index))
  | fuel + 1, id, offset => do
    let node ← (← get).node id
    let stop ← match node.kind with
      | .leaf bytes => pure (offset + UInt64.ofNat bytes.size)
      | .pad padding => pure (offset + padding.sizeAt offset)
      | .container => node.children.foldlM (fun offset child => layOut fuel child offset) offset
    let _ ← (← get).node id
    modify fun tree => tree.modifyNode id fun node =>
      { node with offset, length := stop - offset }
    return stop

/-- The field of a patch and the value that it receives, for the owner's place. -/
def patchValue (tree : BlockTree) (offset length : UInt64) : Patch → Except Fault (Field × Nat)
  | .size field => return (field, length.toNat)
  | .childCount target field => return (field, (← tree.node target).children.length)
  | .length target field => return (field, (← tree.node target).length.toNat)
  | .relativeOffset target field =>
    match tree.node? target with
    | some { parent := some _, offset := start, .. } =>
      return (field, (start - offset).toNat)
    | _ => return (field, 0)

/-- The patches of a subtree of at most `fuel` levels are written. -/
def applyPatches : (fuel : Nat) → NodeId → Step BlockTree Unit
  | 0, id => fail (.tree (.notLive id.index))
  | fuel + 1, id => do
    (← (← get).node id).children.forM fun child => applyPatches fuel child
    let node ← (← get).node id
    node.patches.forM fun patch => do
      let (field, value) ← (← get).patchValue node.offset node.length patch
      writeField field value

/-- A subtree is laid out from offset zero and patched. The result is its length. -/
def refresh (root : NodeId) : Step BlockTree UInt64 := do
  let stop ← layOut ((← get).nodes.size + 1) root 0
  applyPatches ((← get).nodes.size + 1) root
  return stop

/-- The bytes of a subtree of at most `fuel` levels, with padding as of the last refresh. -/
def serialize (tree : BlockTree) : (fuel : Nat) → NodeId → List UInt8
  | 0, _ => []
  | fuel + 1, id =>
    match tree.node? id with
    | none => []
    | some node =>
      match node.kind with
      | .leaf bytes => bytes.toList
      | .pad padding => List.replicate node.length.toNat padding.fill
      | .container => node.children.flatMap fun child => serialize tree fuel child

/-- The bytes of a subtree, with padding as of the last refresh. -/
def toBytes (tree : BlockTree) (id : NodeId) : List UInt8 :=
  tree.serialize (tree.nodes.size + 1) id

end DexArsc.BlockTree
