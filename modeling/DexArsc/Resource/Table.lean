/-
Resource tables: a global string pool, packages and other chunks, which are kept verbatim. All
of a table's chunks live in one block tree.
-/

import DexArsc.Resource.Package

namespace DexArsc.Resource

/-- A resource table. -/
structure Table where
  tree : BlockTree
  root : NodeId
  strings : StringPool
  stringsNode : NodeId
  packages : List Package := []
  packagesNode : NodeId

namespace Table

/-- The size of the header of a new table. -/
def headerSize : Nat := 12

/-- The position of the package count in the header. -/
def countPosition : Nat := 8

/-- The tag of the container with the packages. -/
def packagesTag : UInt32 := 0xFFFF0200

/-- A header leaf for a table, and a container for its packages, whose number a refresh writes
into the header. -/
def addHeader (root : NodeId) (bytes : Bytes) : Step BlockTree NodeId := do
  let header ← BlockTree.newLeaf ChunkType.table.tag bytes
  BlockTree.addChild root header
  let packages ← BlockTree.newContainer packagesTag
  BlockTree.addPatch root (.size (.word header 4))
  BlockTree.addPatch root (.childCount packages (.word header countPosition))
  return packages

/-- A table without strings and packages is built in a fresh tree. -/
def build : Step BlockTree (BlockTree → Table) := do
  let head := Bytes.ofWord16 ChunkType.table.code ++ Bytes.ofWord16 (UInt16.ofNat headerSize)
  let padding := List.replicate (headerSize - head.length) (0 : UInt8)
  let root ← BlockTree.newContainer ChunkType.table.tag
  let packagesNode ← addHeader root (head ++ padding).toArray
  let strings := StringPool.empty .utf8
  let stringsNode ← BlockTree.newLeaf ChunkType.stringPool.tag strings.toChunk.toArray
  BlockTree.addChild root stringsNode
  BlockTree.addChild root packagesNode
  return fun tree => { tree, root, strings, stringsNode, packagesNode }

/-- A table without strings and packages. -/
def empty : Except Fault Table :=
  match build {} with
  | .ok table tree => .ok (table tree)
  | .error fault _ => .error fault

/-- What has been read of a table. -/
structure Draft where
  tree : BlockTree := {}
  strings : Option (StringPool × NodeId) := none
  packages : List Package := []

namespace Draft

/-- A step on the tree of a draft. -/
def onTree {α : Type} : Step BlockTree α → Step Draft α :=
  Step.onPart Draft.tree fun tree draft => { draft with tree }

/-- The first string pool of a table becomes its global pool. -/
def readStrings (chunk : Chunk) : Step Draft NodeId := do
  let pool ← Except.within "global string pool" (StringPool.read chunk.bytes)
  let leaf ← onTree (BlockTree.newLeaf ChunkType.stringPool.tag chunk.bytes)
  modify fun draft => { draft with strings := some (pool, leaf) }
  return leaf

/-- A package is read into the container with the packages. The container has its place where
the first package stands. -/
def readPackage (options : ReadOptions) (packagesNode : NodeId) (chunk : Chunk) :
    Step Draft (Option NodeId) := do
  let package ← onTree (Package.read chunk.bytes options)
  onTree (BlockTree.addChild packagesNode package.node)
  let isFirst := (← get).packages.isEmpty
  modify fun draft => { draft with packages := draft.packages ++ [package] }
  return if isFirst then some packagesNode else none

/-- A chunk of the table is read. The result is the node that becomes a child of the table. -/
def readChunk (options : ReadOptions) (packagesNode : NodeId) (chunk : Chunk) :
    Step Draft (Option NodeId) := do
  if chunk.header.type = .stringPool ∧ (← get).strings.isNone then
    some <$> readStrings chunk
  else if chunk.header.type = .package then
    readPackage options packagesNode chunk
  else do
    chunk.header.accept options
    some <$> onTree chunk.keep

/-- A piece of the table is read and becomes a child of the table. -/
def readPiece (options : ReadOptions) (root packagesNode : NodeId) (piece : Piece) :
    Step Draft Unit := do
  let node ← match piece with
    | .gap bytes => some <$> onTree (BlockTree.newLeaf gapTag bytes)
    | .chunk chunk => readChunk options packagesNode chunk
  node.forM fun node => onTree (BlockTree.addChild root node)

/-- The table that has been read. It has a string pool and as many packages as its header says. -/
def table (options : ReadOptions) (count : UInt32) (root packagesNode : NodeId) (draft : Draft) :
    Except Fault Table :=
  match draft.strings with
  | none => fail (.resource .noGlobalStrings)
  | some (strings, stringsNode) =>
    if count.toNat ≠ draft.packages.length ∧ options.strictSizes then
      fail (.resource (.packageCountMismatch count.toNat draft.packages.length))
    else
      .ok { tree := draft.tree, root, strings, stringsNode, packages := draft.packages, packagesNode }

end Draft

/-- Reading yields the chunk header and the package count of a table at the start of the data.
The cursor stops behind the header. -/
def readHead (options : ReadOptions) : Reader (ChunkHeader × UInt32) := do
  let data := (← get).data
  let header ← ChunkHeader.read
  if header.type ≠ .table then
    fail (.resource (.notTable header.type))
  if header.headerSize.toNat < headerSize then
    fail (.resource (.shortTableHeader header.headerSize.toNat))
  if header.stop ≠ data.size ∧ options.strictSizes then
    fail (.resource (.tableSizeMismatch header.size.toNat data.size))
  let count ← Reader.word32
  Reader.seek header.headerSize.toNat
  return (header, count)

/-- The rest of a table is read behind its header. -/
def readRest (options : ReadOptions) (header : ChunkHeader) (count : UInt32) (cursor : Cursor) :
    Step Draft (Draft → Except Fault Table) := do
  let root ← Draft.onTree (BlockTree.newContainer ChunkType.table.tag)
  let head := cursor.data.extract 0 header.headerSize.toNat
  let packagesNode ← Draft.onTree (addHeader root head)
  let _ ← Reader.pieces header.stop cursor (Draft.readPiece options root packagesNode)
  if (← get).packages.isEmpty then
    Draft.onTree (BlockTree.addChild root packagesNode)
  return Draft.table options count root packagesNode

/-- The table with the given bytes. -/
def read (data : Bytes) (options : ReadOptions) : Except Fault Table :=
  match readHead options { data } with
  | .error fault _ => .error fault
  | .ok (header, count) cursor =>
    match readRest options header count cursor {} with
    | .error fault _ => .error fault
    | .ok finish draft => finish draft

/-- A step on the tree of a table. -/
def onTree {α : Type} : Step BlockTree α → Step Table α :=
  Step.onPart Table.tree fun tree table => { table with tree }

/-- The package with an id. -/
def package? (table : Table) (id : UInt32) : Option Package :=
  table.packages.find? (·.id == id)

/-- The package with an id, which has to exist. -/
def package (table : Table) (id : UInt32) : Except Fault Package :=
  match table.package? id with
  | some package => .ok package
  | none => fail (.resource (.noPackage id))

/-- The table with the package of an id replaced by its image. -/
def modifyPackage (table : Table) (id : UInt32) (change : Package → Package) : Table :=
  match table.packages.findIdx? (·.id == id) with
  | some index => { table with packages := table.packages.modify index change }
  | none => table

/-- A step on the package with an id. Without the package there is no result. -/
def editPackage {α : Type} (id : UInt32) (step : Step Package α) : Step Table (Option α) :=
  Step.onPart? (·.package? id) (fun package table => table.modifyPackage id fun _ => package) step

/-- The string values in all type chunks of a package, with their strings. -/
def stringValues (table : Table) (package : Package) :
    Except Fault (List (UInt32 × Option String)) := do
  return (← package.stringIndexes table.tree).map fun index => (index, table.strings.get? index)

/-- The package with an id, or else a new one with a name. -/
def internPackage (id : UInt32) (name : String) : Step Table Package := do
  let table ← get
  match table.package? id with
  | some package => return package
  | none => do
    if 0xFF < id then
      fail (.resource (.idTooLarge id))
    let package ← onTree (Package.make id name)
    onTree (BlockTree.addChild table.packagesNode package.node)
    modify fun table => { table with packages := table.packages ++ [package] }
    return package

/-- A chunk is appended to a package. The result is the node of the chunk. -/
def pushChunk (id : UInt32) (bytes : Bytes) : Step Table NodeId := do
  let package ← (← get).package id
  let (node, package) ← onTree (package.pushChunk bytes)
  modify (·.modifyPackage id fun _ => package)
  return node

/-- A package receives another name. -/
def renamePackage (id : UInt32) (name : String) : Step Table Unit := do
  let package ← (← (← get).package id).rename name
  modify (·.modifyPackage id fun _ => package)

/-- A package is removed. -/
def removePackage (id : UInt32) : Step Table Package := do
  let package ← (← get).package id
  modify fun table => { table with packages := table.packages.eraseP (·.id == id) }
  onTree (BlockTree.remove package.node)
  return package

/-- The packages are brought into the order of their ids. -/
def sortPackages : Step Table Unit := do
  modify fun table => { table with packages := table.packages.mergeSort fun a b => a.id ≤ b.id }
  let { packages, packagesNode, .. } ← get
  let key (node : NodeId) : Nat :=
    match packages.find? (·.node == node) with
    | some package => package.id.toNat + 1
    | none => 0
  onTree (BlockTree.sortChildren packagesNode (fun a b => decide (a ≤ b)) fun _ => key)

/-- Every header, pool and size of the table is brought up to date. The result is the size of
the table. -/
def refresh : Step Table UInt64 := do
  let table ← get
  table.packages.forM fun package => onTree package.refresh
  if table.strings.modified then
    onTree (BlockTree.setLeaf table.stringsNode table.strings.toChunk.toArray)
  onTree (BlockTree.refresh table.root)

/-- The table is refreshed and written. -/
def toBytes : Step Table (List UInt8) := do
  let _ ← refresh
  let table ← get
  return table.tree.toBytes table.root

/-- The index in a pool of a string that another table's index names. The string is appended
when the pool lacks it. -/
def adoptString (other : StringPool) : StringMap StringPool := fun index => do
  match other.get? index with
  | none => fail (.resource (.globalStringBeyond index.toNat other.size))
  | some text => do
    let (index, pool) ← (← get).intern text
    set pool
    return index

/-- A copy of another table's package is added. Its string indexes name the same strings in this
table's pool. -/
def mergePackage (other : Table) (package : Package) : Step Table Unit := do
  if ((← get).package? package.id).isSome then
    fail (.resource (.packageExists package.id))
  let node ← onTree (BlockTree.importNode other.tree package.node)
  let copy ← package.rebind other.tree (← get).tree node
  let _ ← Step.within (Package.title package.id)
    (Step.onPart (fun table : Table => (table.tree, table.strings))
      (fun (tree, strings) table => { table with tree, strings })
      (copy.remapStrings (adoptString other.strings)))
  onTree (BlockTree.addChild (← get).packagesNode node)
  modify fun table => { table with packages := table.packages ++ [copy] }

/-- Copies of another table's packages are added, up to the first failure. The result is their
number. -/
def merge (other : Table) : Step Table Nat := do
  other.packages.forM (mergePackage other)
  return other.packages.length

end Table
end DexArsc.Resource
