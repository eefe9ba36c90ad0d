/-
Packages of a resource table: an id, a name, a pool of type names, a pool of key names and
chunks that are kept verbatim. A package lives in a block tree that other packages may share.
-/

import DexArsc.BlockTree.Import
import DexArsc.Resource.StringPool
import DexArsc.Resource.StringValue

namespace DexArsc.Resource

/-- A string pool and the leaf that it is written to. -/
structure PoolSlot where
  pool : StringPool
  node : NodeId

/-- The two pools of a package. -/
inductive PackagePool
  | types
  | keys
  deriving DecidableEq

/-- A package. -/
structure Package where
  id : UInt32
  name : String
  node : NodeId
  header : NodeId
  typeStrings : Option PoolSlot := none
  keyStrings : Option PoolSlot := none
  /-- The chunks besides the two pools, in their order. -/
  chunks : List (ChunkType × NodeId) := []

namespace Package

/-- The size of the header of a new package. -/
def headerSize : Nat := 288

/-- The least size of a package header, without the last field of a new one. -/
def minHeaderSize : Nat := 284

/-- The position of the name in the header. -/
def namePosition : Nat := 12

/-- The number of code units in the header's name field. -/
def nameUnits : Nat := 128

/-- The position of a pool's offset in the header. -/
def PackagePool.position : PackagePool → Nat
  | .types => 268
  | .keys => 276

/-- A name ends before the end of its field. -/
def checkName (name : String) : Except Fault Unit :=
  let units := Text.unitCount name
  if nameUnits ≤ units then
    fail (.resource (.nameTooLong name units (nameUnits - 1)))
  else
    .ok ()

/-- The name in a package header: the code units before the first zero. -/
def decodeName (header : Bytes) : String :=
  let field := header.extract namePosition (namePosition + 2 * nameUnits)
  Text.ofUtf16Lossy ((unitsOfBytes field.toList).takeWhile (· ≠ 0))

/-- The bytes of a name field, filled with zeros. -/
def encodeName (name : String) : List UInt8 :=
  let units := Text.units name
  (units ++ List.replicate (nameUnits - units.length) 0).flatMap Bytes.ofWord16

/-- The slot of a pool. -/
def slot? (package : Package) : PackagePool → Option PoolSlot
  | .types => package.typeStrings
  | .keys => package.keyStrings

/-- The package with another slot for a pool. -/
def withSlot (package : Package) (which : PackagePool) (slot : PoolSlot) : Package :=
  match which with
  | .types => { package with typeStrings := some slot }
  | .keys => { package with keyStrings := some slot }

/-- A step on a pool. Without the pool there is no result. -/
def editPool {α : Type} (which : PackagePool) (step : Step StringPool α) :
    Step Package (Option α) :=
  Step.onPart? (fun package => (package.slot? which).map PoolSlot.pool)
    (fun pool package => match package.slot? which with
      | some slot => package.withSlot which { slot with pool }
      | none => package) step

/-- The number of chunks of a type. -/
def chunkCount (package : Package) (type : ChunkType) : Nat :=
  package.chunks.countP fun (other, _) => other == type

/-- The pools that were modified are written to their leaves. -/
def refreshPool (slot : Option PoolSlot) : Step BlockTree Unit :=
  match slot with
  | some { pool, node } => if pool.modified then BlockTree.setLeaf node pool.toChunk.toArray else pure ()
  | none => pure ()

/-- The header receives the id and the name, and every modified pool is written to its leaf. -/
def refresh (package : Package) : Step BlockTree Unit := do
  BlockTree.modifyLeaf package.header fun header =>
    (header.putWord32 8 package.id).overwrite namePosition (encodeName package.name)
  refreshPool package.typeStrings
  refreshPool package.keyStrings

/-- The package and its node are refreshed and written. -/
def toBytes (package : Package) : Step BlockTree (List UInt8) := do
  package.refresh
  let _ ← BlockTree.refresh package.node
  return (← get).toBytes package.node

/-- A container with a header, whose size a refresh writes. -/
def newNode (header : Bytes) : Step BlockTree (NodeId × NodeId) := do
  let node ← BlockTree.newContainer ChunkType.package.tag
  let head ← BlockTree.newLeaf ChunkType.package.tag header
  BlockTree.addChild node head
  BlockTree.addPatch node (.size (.word head 4))
  return (node, head)

/-- A leaf for a pool, whose offset a refresh writes into the package's header. -/
def newPoolLeaf (package : Package) (which : PackagePool) (chunk : Bytes) :
    Step BlockTree NodeId := do
  let leaf ← BlockTree.newLeaf ChunkType.stringPool.tag chunk
  BlockTree.addPatch package.node
    (.relativeOffset leaf (.word package.header (PackagePool.position which)))
  return leaf

/-- The package with an empty pool. -/
def addPool (package : Package) (which : PackagePool) : Step BlockTree Package := do
  let pool := StringPool.empty .utf8
  let leaf ← newPoolLeaf package which pool.toChunk.toArray
  BlockTree.addChild package.node leaf
  return package.withSlot which { pool, node := leaf }

/-- A package without chunks and with two empty pools. -/
def make (id : UInt32) (name : String) : Step BlockTree Package := do
  checkName name
  let head := Bytes.ofWord16 ChunkType.package.code ++ Bytes.ofWord16 (UInt16.ofNat headerSize)
  let padding := List.replicate (headerSize - head.length) (0 : UInt8)
  let (node, header) ← newNode (head ++ padding).toArray
  let package : Package := { id, name, node, header }
  let package ← package.addPool .types
  let package ← package.addPool .keys
  package.refresh
  return package

/-- The pool that begins at the position of a chunk, when its header names that position. -/
def poolAt? (types keys : UInt32) (header : ChunkHeader) : Option PackagePool :=
  if header.type ≠ .stringPool then none
  else if header.start = types.toNat then some .types
  else if header.start = keys.toNat then some .keys
  else none

/-- A chunk of the package is read into the tree. The result is its node. -/
def readChunk (options : ReadOptions) (pool? : ChunkHeader → Option PackagePool) (chunk : Chunk) :
    Step (BlockTree × Package) NodeId := do
  let onTree {α : Type} : Step BlockTree α → Step (BlockTree × Package) α :=
    Step.onPart Prod.fst fun tree (_, package) => (tree, package)
  let (_, package) ← get
  match pool? chunk.header with
  | some which => do
    let pool ← StringPool.read chunk.bytes
    let leaf ← onTree (newPoolLeaf package which chunk.bytes)
    modify fun (tree, package) => (tree, package.withSlot which { pool, node := leaf })
    return leaf
  | none => do
    chunk.header.accept options
    let node ← onTree chunk.keep
    modify fun (tree, package) =>
      (tree, { package with chunks := package.chunks ++ [(chunk.header.type, node)] })
    return node

/-- The header of a package: the chunk header, the header bytes, the id, the name and the
positions of the pools. -/
structure Head where
  chunk : ChunkHeader
  bytes : Bytes
  id : UInt32
  name : String
  types : UInt32
  keys : UInt32

/-- Reading yields the header of a package at the start of the data. The cursor stops behind
it. -/
def readHead : Reader Head := do
  let data := (← get).data
  let chunk ← ChunkHeader.read
  if chunk.headerSize.toNat < minHeaderSize then
    fail (.resource (.shortPackageHeader chunk.headerSize.toNat))
  let bytes := data.extract 0 chunk.headerSize.toNat
  let id ← Reader.word32
  Reader.seek (PackagePool.position .types)
  let types ← Reader.word32
  Reader.seek (PackagePool.position .keys)
  let keys ← Reader.word32
  Reader.seek chunk.headerSize.toNat
  return { chunk, bytes, id, name := decodeName bytes, types, keys }

/-- The words for a package in messages. -/
def title (id : UInt32) : String :=
  s!"package 0x{Text.hexPadded 2 id.toNat}"

/-- A package is read into a tree. Its node has no parent. -/
def read (data : Bytes) (options : ReadOptions) : Step BlockTree Package := do
  let (head, cursor) ← match readHead { data } with
    | .ok head cursor => pure (head, cursor)
    | .error fault _ => throw fault
  let (node, header) ← newNode head.bytes
  let package : Package := { id := head.id, name := head.name, node, header }
  let readPiece (piece : Piece) : Step (BlockTree × Package) Unit := do
    let child ← match piece with
      | .gap bytes =>
        Step.onPart Prod.fst (fun tree (_, package) => (tree, package))
          (BlockTree.newLeaf gapTag bytes)
      | .chunk chunk => readChunk options (poolAt? head.types head.keys) chunk
    Step.onPart Prod.fst (fun tree (_, package) => (tree, package)) (BlockTree.addChild node child)
  match Step.within (title head.id) (Reader.pieces head.chunk.stop cursor readPiece)
      (← get, package) with
  | .ok _ (tree, package) => set tree; return package
  | .error fault (tree, _) => set tree; throw fault

/-- A chunk is appended to a package, unless it is of a type with a place of its own. The result
is the package and the node of the chunk. -/
def pushChunk (package : Package) (bytes : Bytes) : Step BlockTree (NodeId × Package) := do
  let (chunk, rest) ← match Chunk.read { data := bytes } with
    | .ok chunk cursor => pure (chunk, cursor.remaining)
    | .error fault _ => throw fault
  let type := chunk.header.type
  if rest ≠ 0 then
    fail (.resource (.trailingBytes rest type))
  if type = .table ∨ type = .package ∨ type = .stringPool then
    fail (.resource (.foreignChunk type))
  let node ← chunk.keep
  BlockTree.addChild package.node node
  return (node, { package with chunks := package.chunks ++ [(type, node)] })

/-- The package with another name. -/
def rename (package : Package) (name : String) : Except Fault Package := do
  checkName name
  return { package with name }

/-- The package of a copied node. Its nodes are found by their places among the children. -/
def rebind (package : Package) (source tree : BlockTree) (node : NodeId) :
    Except Fault Package := do
  let old := source.children package.node
  let new := tree.children node
  let map (id : NodeId) : Except Fault NodeId :=
    match (old.idxOf? id).bind (new[·]?) with
    | some copy => .ok copy
    | none => fail (.resource (.lostChild package.id))
  let mapSlot (slot : PoolSlot) : Except Fault PoolSlot := do
    return { slot with node := ← map slot.node }
  let chunks ← package.chunks.mapM fun (type, id) => return (type, ← map id)
  return { package with
    node
    header := ← map package.header
    typeStrings := ← package.typeStrings.mapM mapSlot
    keyStrings := ← package.keyStrings.mapM mapSlot
    chunks }

variable {state : Type}

/-- The string indexes of a type chunk in the tree are replaced by their images. The result is
their number. -/
def remapChunk (map : StringMap state) (node : NodeId) : Step (BlockTree × state) Nat := do
  let (tree, inner) ← get
  match tree.children node with
  | [head, body] => do
    let headBytes ← tree.leaf head
    let bytes := headBytes ++ (← tree.leaf body)
    match remapStrings map (bytes, inner) with
    | .error fault (_, inner) => set (tree, inner); throw fault
    | .ok count (bytes, inner) => do
      set (tree, inner)
      Step.onPart Prod.fst (fun tree (_, inner) => (tree, inner)) do
        BlockTree.setLeaf head (bytes.extract 0 headBytes.size)
        BlockTree.setLeaf body (bytes.extract headBytes.size bytes.size)
      return count
  | _ => fail (.resource .notHeaderAndBody)

/-- The string indexes in all type chunks of a package are replaced by their images. The result
is their number. -/
def remapStrings (package : Package) (map : StringMap state) : Step (BlockTree × state) Nat :=
  (package.chunks.filter fun (type, _) => type == .typeEntries).foldlM
    (fun count (_, node) => return count + (← remapChunk map node)) 0

/-- The string indexes in all type chunks of a package, in their order. -/
def stringIndexes (package : Package) (tree : BlockTree) : Except Fault (List UInt32) :=
  let record : StringMap (List UInt32) := fun index => do
    modify (index :: ·)
    return index
  match package.remapStrings record (tree, []) with
  | .ok _ (_, seen) => .ok seen.reverse
  | .error fault _ => .error fault

end Package
end DexArsc.Resource
