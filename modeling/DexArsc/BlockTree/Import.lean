/-
Copies of subtrees between block trees. The copy has fresh nodes, and its patches name them.
-/

import DexArsc.BlockTree.Basic

namespace DexArsc

/-- The fresh node of each copied node, in the order of copying. -/
abbrev NodeMap := List (NodeId × NodeId)

/-- The fresh node of a copied node. -/
def NodeMap.find (nodes : NodeMap) (id : NodeId) : Option NodeId :=
  nodes.lookup id

/-- The field at the copy of its leaf. -/
def Field.rename (nodes : NodeMap) (field : Field) : Option Field := do
  return { field with node := ← nodes.find field.node }

/-- The patch with the copies of the nodes that it names. -/
def Patch.rename (nodes : NodeMap) : Patch → Option Patch
  | .size field => do return .size (← field.rename nodes)
  | .childCount target field => do
    return .childCount (← nodes.find target) (← field.rename nodes)
  | .relativeOffset target field => do
    return .relativeOffset (← nodes.find target) (← field.rename nodes)
  | .length target field => do
    return .length (← nodes.find target) (← field.rename nodes)

namespace BlockTree

/-- A subtree of at most `fuel` levels is copied without its patches, a parent before its
children. The result is the copy and the extended node map. -/
def copyNodes (other : BlockTree) : (fuel : Nat) → NodeId → NodeMap →
    Step BlockTree (NodeId × NodeMap)
  | 0, id, _ => fail (.tree (.notLive id.index))
  | fuel + 1, id, nodes => do
    let node ← other.node id
    let copy ← allocate node.kind node.tag
    modify fun tree => tree.modifyNode copy fun fresh =>
      { fresh with offset := node.offset, length := node.length }
    let nodes ← node.children.foldlM (fun nodes child => do
      let (childCopy, nodes) ← copyNodes other fuel child nodes
      addChild copy childCopy
      return nodes) (nodes ++ [(id, copy)])
    return (copy, nodes)

/-- A subtree of another tree is copied with its patches. The result is the copy, which has no
parent. -/
def importNode (other : BlockTree) (id : NodeId) : Step BlockTree NodeId := do
  let (copy, nodes) ← copyNodes other (other.nodes.size + 1) id []
  nodes.forM fun (old, fresh) => do
    match (← other.node old).patches.mapM (Patch.rename nodes) with
    | some patches => modify fun tree => tree.modifyNode fresh fun node => { node with patches }
    | none => fail (.tree (.patchOutside old.index))
  return copy

end BlockTree
end DexArsc
