/-
Chunks: runs of bytes that begin with a type, the size of their header and their own size.
Chunks that are not modelled are kept in a block tree as a header and a body.
-/

import DexArsc.BlockTree.Refresh
import DexArsc.Bytes.Cursor
import DexArsc.Options
import DexArsc.Resource.ChunkType

namespace DexArsc.Resource

/-- The start of a chunk. -/
structure ChunkHeader where
  type : ChunkType
  /-- The size of the header with the fields of the chunk's type. -/
  headerSize : UInt16
  /-- The size of the whole chunk. -/
  size : UInt32
  /-- The position of the chunk in the data. -/
  start : Nat
  deriving DecidableEq, Inhabited

/-- The bytes that every chunk begins with: a type, the size of the header and its own size. -/
def minHeaderSize : Nat := 8

namespace ChunkHeader

/-- The position behind a chunk. -/
def stop (header : ChunkHeader) : Nat :=
  header.start + header.size.toNat

/-- Reading yields the header of a chunk that ends before the limit. -/
def read : Reader ChunkHeader := do
  let start ← Reader.position
  if (← Reader.remaining) < minHeaderSize then
    fail (.resource (.truncatedHeader start))
  let type := ChunkType.ofCode (← Reader.word16)
  let headerSize ← Reader.word16
  let size ← Reader.word32
  if headerSize.toNat < minHeaderSize ∨ size.toNat < headerSize.toNat then
    fail (.resource (.invalidSizes type start headerSize.toNat size.toNat))
  if (← Reader.remaining) + minHeaderSize < size.toNat then
    fail (.resource (.chunkBeyondStream type start))
  return { type, headerSize, size, start }

/-- A chunk of a type outside the format is kept when the options say so. -/
def accept (options : ReadOptions) (header : ChunkHeader) : Except Fault Unit :=
  match header.type with
  | .unknown code =>
    if options.preserveUnknown then .ok ()
    else fail (.resource (.unknownChunk code header.start))
  | _ => .ok ()

end ChunkHeader

/-- A chunk with all of its bytes. -/
structure Chunk where
  header : ChunkHeader
  bytes : Bytes

namespace Chunk

/-- Reading yields the next chunk. -/
def read : Reader Chunk := do
  let header ← ChunkHeader.read
  Reader.seek header.start
  let bytes ← Reader.peek header.size.toNat
  Reader.seek header.stop
  return { header, bytes := bytes.toArray }

/-- The bytes of the header. -/
def head (chunk : Chunk) : Bytes :=
  chunk.bytes.extract 0 chunk.header.headerSize.toNat

/-- The bytes behind the header. -/
def body (chunk : Chunk) : Bytes :=
  chunk.bytes.extract chunk.header.headerSize.toNat chunk.bytes.size

/-- A chunk is kept verbatim in a container with a leaf for the header and one for the body. A
refresh writes the size of the chunk. -/
def keep (chunk : Chunk) : Step BlockTree NodeId := do
  let tag := chunk.header.type.tag
  let node ← BlockTree.newContainer tag
  let head ← BlockTree.newLeaf tag chunk.head
  let body ← BlockTree.newLeaf tag chunk.body
  BlockTree.addChild node head
  BlockTree.addChild node body
  BlockTree.addPatch node (.size (.word head 4))
  return node

end Chunk

/-- What stands in a row of chunks: a chunk, or bytes at the end that are too few for one. -/
inductive Piece
  | chunk (chunk : Chunk)
  | gap (bytes : Bytes)

/-- The tag of leaves with the bytes behind the last chunk. -/
def gapTag : UInt32 := 0xFFFF0000

namespace Piece

/-- Reading yields the piece before the end of a row, which does not pass that end. -/
def read (stop : Nat) : Reader Piece := do
  let position ← Reader.position
  if stop - position < minHeaderSize then
    return .gap (← Reader.bytes (stop - position)).toArray
  let found ← Chunk.read
  if stop < found.header.stop then
    fail (.resource (.chunkBeyondParent found.header.type found.header.start stop))
  return .chunk found

/-- The pieces up to the end of a row, at most `fuel` of them, and the cursor behind them or the
failure that comes after them. -/
def readAll (stop : Nat) : (fuel : Nat) → Cursor → List Piece × Except Fault Cursor
  | 0, cursor => ([], .ok cursor)
  | fuel + 1, cursor =>
    if stop ≤ cursor.position then
      ([], .ok cursor)
    else
      match read stop cursor with
      | .error fault _ => ([], .error fault)
      | .ok piece cursor =>
        let (pieces, result) := readAll stop fuel cursor
        (piece :: pieces, result)

end Piece

/-- A row of chunks is visited from the cursor up to an end. A failure to read comes after the
visits of all chunks before it. -/
def Reader.pieces {state : Type} (stop : Nat) (cursor : Cursor)
    (visit : Piece → Step state Unit) : Step state Cursor := do
  let (pieces, result) := Piece.readAll stop (cursor.data.size + 1) cursor
  pieces.forM visit
  result

/-- A row of chunks is kept in a container. Chunks of types outside the format are kept when the
options say so, and chunks that are skipped have no node. The results are the headers of all
chunks and the cursor behind them. -/
def Chunk.keepRow (options : ReadOptions) (skips : ChunkType → Bool) (parent : NodeId)
    (stop : Nat) (cursor : Cursor) : Step BlockTree (List ChunkHeader × Cursor) := do
  let keepPiece : Piece → Step BlockTree Unit
    | .gap bytes => do BlockTree.addChild parent (← BlockTree.newLeaf gapTag bytes)
    | .chunk chunk => do
      chunk.header.accept options
      unless skips chunk.header.type do
        BlockTree.addChild parent (← chunk.keep)
  let headers := (Piece.readAll stop (cursor.data.size + 1) cursor).1.filterMap fun
    | .chunk chunk => some chunk.header
    | .gap _ => none
  return (headers, ← Reader.pieces stop cursor keepPiece)

end DexArsc.Resource
