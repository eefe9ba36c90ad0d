/-
Resource tables, packages and string pools are read without a slice, a byte or a difference that is out of range, and so
are chunks that are appended to packages and string indexes that are replaced. Each function is written with guarded
accesses, and does the same.
-/

import DexArsc.Proofs.Guarded
import DexArsc.Proofs.Resource.PackageRead
import DexArsc.Proofs.Resource.PoolRead
import DexArsc.Resource.Table

namespace DexArsc.Resource

open DexArsc.Guarded

variable {state : Type}

/-- A chunk header by guarded reads. -/
def ChunkHeader.readGuarded : Guarded Cursor ChunkHeader := do
  let start ← Reader.position
  if (← Reader.remaining) < minHeaderSize then
    fail (.resource (.truncatedHeader start))
  let type := ChunkType.ofCode (← word16)
  let headerSize ← word16
  let size ← word32
  if headerSize.toNat < minHeaderSize ∨ size.toNat < headerSize.toNat then
    fail (.resource (.invalidSizes type start headerSize.toNat size.toNat))
  if (← Reader.remaining) + minHeaderSize < size.toNat then
    fail (.resource (.chunkBeyondStream type start))
  return { type, headerSize, size, start }

/-- A chunk by guarded reads. -/
def Chunk.readGuarded : Guarded Cursor Chunk := do
  let header ← ChunkHeader.readGuarded
  Reader.seek header.start
  let bytes ← peek header.size.toNat
  Reader.seek header.stop
  return { header, bytes := bytes.toArray }

/-- A chunk is kept with its header and its body as slices of its bytes. -/
def Chunk.keepGuarded (chunk : Chunk) : Guarded BlockTree NodeId := do
  let tag := chunk.header.type.tag
  let node ← BlockTree.newContainer tag
  let head ← BlockTree.newLeaf tag (← slice chunk.bytes 0 chunk.header.headerSize.toNat).toArray
  let body ← BlockTree.newLeaf tag (← slice chunk.bytes chunk.header.headerSize.toNat chunk.bytes.size).toArray
  BlockTree.addChild node head
  BlockTree.addChild node body
  BlockTree.addPatch node (.size (.word head 4))
  return node

/-- The piece before the end of a row by guarded reads. The bytes up to the end are counted, and for a gap those in
front of it. -/
def Piece.readGuarded (stop : Nat) : Guarded Cursor Piece := do
  let position ← Reader.position
  if (← minus stop position) < minHeaderSize then
    let gap ← Guarded.bytes (← minus stop position)
    let _ ← minus (← Reader.position) gap.length
    return .gap gap.toArray
  let found ← Chunk.readGuarded
  if stop < found.header.stop then
    fail (.resource (.chunkBeyondParent found.header.type found.header.start stop))
  return .chunk found

/-- A row of chunks is visited while it is read. A walk that does not end has no result. -/
def piecesGuarded (stop : Nat) (visit : Piece → Guarded state Unit) : (fuel : Nat) → Cursor → Guarded state Cursor
  | 0, _ => outOfRange
  | fuel + 1, cursor =>
    if stop ≤ cursor.position then
      pure cursor
    else do
      let (piece, cursor) ← on (Piece.readGuarded stop) cursor
      visit piece
      piecesGuarded stop visit fuel cursor

/-- A length by guarded slots. -/
def StringForm.readLengthGuarded (form : StringForm) (data : Bytes) (position limit : Nat) :
    Guarded state (Nat × Nat) :=
  let width := form.slotBytes
  let long := 1 <<< (form.slotBits - 1)
  if limit < position + width then
    fail (form.lengthBeyond position)
  else do
    let first := Bytes.littleEndian (← slice data position (position + width))
    if first < long then
      return (first, position + width)
    else if limit < position + 2 * width then
      fail (form.lengthTruncated position)
    else
      let second := Bytes.littleEndian (← slice data (position + width) (position + 2 * width))
      return ((first - long) <<< form.slotBits + second, position + 2 * width)

/-- UTF-8 text by guarded accesses. -/
def readUtf8StringGuarded (data : Bytes) (position limit : Nat) : Guarded state String := do
  let (_, start) ← StringForm.utf8.readLengthGuarded data position limit
  let (length, start) ← StringForm.utf8.readLengthGuarded data start limit
  let stop := start + length
  if limit ≤ stop then
    fail (.resource (.utf8Beyond position))
  let encoded ← slice data start stop
  let last ← byteAt data stop
  if last ≠ 0 then
    fail (.resource (.utf8Unterminated position))
  match Text.ofModifiedUtf8? encoded with
  | some text => return text
  | none => fail (.resource (.utf8Invalid position))

/-- UTF-16 text by guarded accesses. -/
def readUtf16StringGuarded (data : Bytes) (position limit : Nat) : Guarded state String := do
  let (length, start) ← StringForm.utf16.readLengthGuarded data position limit
  let stop := start + 2 * length
  if limit < stop + 2 then
    fail (.resource (.utf16Beyond position))
  let encoded ← slice data start stop
  let low ← byteAt data stop
  let high ← byteAt data (stop + 1)
  if low ≠ 0 ∨ high ≠ 0 then
    fail (.resource (.utf16Unterminated position))
  match Text.ofUtf16? (unitsOfBytes encoded) with
  | some text => return text
  | none => fail (.resource (.utf16Invalid position))

/-- The text of a form by guarded accesses. -/
def StringForm.readGuarded : StringForm → (data : Bytes) → (position limit : Nat) → Guarded state String
  | utf8 => readUtf8StringGuarded
  | utf16 => readUtf16StringGuarded

namespace StringPool

/-- The strings at offsets from a start by guarded accesses, behind those that are already read. -/
def readStringsGuarded (form : StringForm) (data : Bytes) (start limit : Nat) :
    List UInt32 → Array String → Guarded state (Array String)
  | [], strings => return strings
  | offset :: rest, strings => do
    let text ← within s!"string {strings.size}" (form.readGuarded data (start + offset.toNat) limit)
    readStringsGuarded form data start limit rest (strings.push text)

/-- The header fields of a pool by guarded reads. -/
def readFieldsGuarded : Guarded Cursor Fields :=
  return {
    strings := ← word32
    styles := ← word32
    flags := ← word32
    stringsStart := ← word32
    stylesStart := ← word32 }

/-- A pool by guarded accesses. -/
def readerGuarded : Guarded Cursor StringPool := do
  let data := (← get).data
  let header ← ChunkHeader.readGuarded
  if header.type ≠ .stringPool then
    fail (.resource (.notStringPool header.type))
  if header.headerSize.toNat < headerSize then
    fail (.resource (.shortPoolHeader header.headerSize.toNat))
  let fields ← readFieldsGuarded
  Reader.seek header.headerSize.toNat
  let offsets ← replicate word32 fields.strings.toNat
  let styleOffsets ← replicate word32 fields.styles.toNat
  let pool : StringPool := { flags := fields.flags, modified := false }
  let strings ← readStringsGuarded pool.form data fields.stringsStart.toNat header.stop offsets #[]
  let stylesStart := fields.stylesStart.toNat
  if fields.styles ≠ 0 ∧ (fields.stylesStart < fields.stringsStart ∨ header.stop < stylesStart) then
    fail (.resource (.stylesOutside stylesStart))
  let styleData ← if fields.styles = 0 then pure [] else slice data stylesStart header.stop
  let source ← slice data 0 header.stop
  return { pool with strings, styleOffsets, styleData, source }

/-- The pool in a chunk at the start of the data by guarded accesses. -/
def readGuarded (data : Bytes) : Guarded state StringPool := do
  let (pool, _) ← on readerGuarded { data }
  return pool

end StringPool

namespace Package

/-- The name in a package header as a slice of it. -/
def decodeNameGuarded (header : Bytes) : Guarded state String := do
  let field ← slice header namePosition (namePosition + 2 * nameUnits)
  return Text.ofUtf16Lossy ((unitsOfBytes field).takeWhile (· ≠ 0))

/-- The header of a package by guarded accesses. -/
def readHeadGuarded : Guarded Cursor Head := do
  let data := (← get).data
  let chunk ← ChunkHeader.readGuarded
  if chunk.headerSize.toNat < minHeaderSize then
    fail (.resource (.shortPackageHeader chunk.headerSize.toNat))
  let bytes := (← slice data 0 chunk.headerSize.toNat).toArray
  let id ← word32
  let name ← decodeNameGuarded bytes
  Reader.seek (PackagePool.position .types)
  let types ← word32
  Reader.seek (PackagePool.position .keys)
  let keys ← word32
  Reader.seek chunk.headerSize.toNat
  return { chunk, bytes, id, name, types, keys }

/-- A chunk of a package by guarded accesses. -/
def readChunkGuarded (options : ReadOptions) (pool? : ChunkHeader → Option PackagePool) (chunk : Chunk) :
    Guarded (BlockTree × Package) NodeId := do
  let (_, package) ← get
  match pool? chunk.header with
  | some which => do
    let pool ← StringPool.readGuarded chunk.bytes
    let leaf ← inTree (newPoolLeaf package which chunk.bytes)
    modify fun (tree, package) => (tree, package.withSlot which { pool, node := leaf })
    return leaf
  | none => do
    chunk.header.accept options
    let node ← onPart Prod.fst (fun tree (_, package) => (tree, package)) chunk.keepGuarded
    modify fun (tree, package) =>
      (tree, { package with chunks := package.chunks ++ [(chunk.header.type, node)] })
    return node

/-- A piece of a package by guarded accesses. -/
def readPieceGuarded (options : ReadOptions) (pool? : ChunkHeader → Option PackagePool) (node : NodeId)
    (piece : Piece) : Guarded (BlockTree × Package) Unit := do
  let child ← match piece with
    | .gap bytes => inTree (BlockTree.newLeaf gapTag bytes)
    | .chunk chunk => readChunkGuarded options pool? chunk
  inTree (BlockTree.addChild node child)

/-- The pieces behind the header of a package by guarded accesses. -/
def readBehindGuarded (options : ReadOptions) (head : Head) (cursor : Cursor) : Guarded BlockTree Package := do
  let (node, header) ← newNode head.bytes
  let package : Package := { id := head.id, name := head.name, node, header }
  let row := within (title head.id) (piecesGuarded head.chunk.stop
    (readPieceGuarded options (poolAt? head.types head.keys) node) (cursor.data.size + 1) cursor)
  match row.run (← get, package) with
  | .ok (some _) (tree, package) => set tree; return package
  | .ok none _ => outOfRange
  | .error fault (tree, _) => set tree; throw fault

/-- A package by guarded accesses. -/
def readGuarded (data : Bytes) (options : ReadOptions) : Guarded BlockTree Package := do
  let (head, cursor) ← on readHeadGuarded { data }
  readBehindGuarded options head cursor

/-- A chunk is appended to a package by guarded accesses. -/
def pushChunkGuarded (package : Package) (bytes : Bytes) : Guarded BlockTree (NodeId × Package) := do
  let (chunk, cursor) ← on Chunk.readGuarded { data := bytes }
  let rest := cursor.remaining
  let type := chunk.header.type
  if rest ≠ 0 then
    fail (.resource (.trailingBytes rest type))
  if type = .table ∨ type = .package ∨ type = .stringPool then
    fail (.resource (.foreignChunk type))
  let node ← chunk.keepGuarded
  BlockTree.addChild package.node node
  return (node, { package with chunks := package.chunks ++ [(type, node)] })

end Package

namespace Table

namespace Draft

/-- The global pool by guarded accesses. -/
def readStringsGuarded (chunk : Chunk) : Guarded Draft NodeId := do
  let pool ← within "global string pool" (StringPool.readGuarded chunk.bytes)
  let leaf ← onTree (BlockTree.newLeaf ChunkType.stringPool.tag chunk.bytes)
  modify fun draft => { draft with strings := some (pool, leaf) }
  return leaf

/-- A package of a table by guarded accesses. -/
def readPackageGuarded (options : ReadOptions) (packagesNode : NodeId) (chunk : Chunk) :
    Guarded Draft (Option NodeId) := do
  let package ← onPart Draft.tree (fun tree draft => { draft with tree }) (Package.readGuarded chunk.bytes options)
  onTree (BlockTree.addChild packagesNode package.node)
  let isFirst := (← get).packages.isEmpty
  modify fun draft => { draft with packages := draft.packages ++ [package] }
  return if isFirst then some packagesNode else none

/-- A chunk of a table by guarded accesses. -/
def readChunkGuarded (options : ReadOptions) (packagesNode : NodeId) (chunk : Chunk) :
    Guarded Draft (Option NodeId) := do
  if chunk.header.type = .stringPool ∧ (← get).strings.isNone then
    some <$> readStringsGuarded chunk
  else if chunk.header.type = .package then
    readPackageGuarded options packagesNode chunk
  else do
    chunk.header.accept options
    some <$> onPart Draft.tree (fun tree draft => { draft with tree }) chunk.keepGuarded

/-- A piece of a table by guarded accesses. -/
def readPieceGuarded (options : ReadOptions) (root packagesNode : NodeId) (piece : Piece) : Guarded Draft Unit := do
  let node ← match piece with
    | .gap bytes => some <$> onTree (BlockTree.newLeaf gapTag bytes)
    | .chunk chunk => readChunkGuarded options packagesNode chunk
  node.forM fun node => onTree (BlockTree.addChild root node)

end Draft

/-- The head of a table by guarded accesses. The bytes behind the table are counted. -/
def readHeadGuarded (options : ReadOptions) : Guarded Cursor (ChunkHeader × UInt32) := do
  let data := (← get).data
  let header ← ChunkHeader.readGuarded
  if header.type ≠ .table then
    fail (.resource (.notTable header.type))
  if header.headerSize.toNat < headerSize then
    fail (.resource (.shortTableHeader header.headerSize.toNat))
  if header.stop ≠ data.size ∧ options.strictSizes then
    fail (.resource (.tableSizeMismatch header.size.toNat data.size))
  let _ ← minus data.size header.stop
  let count ← word32
  Reader.seek header.headerSize.toNat
  return (header, count)

/-- The rest of a table by guarded accesses. -/
def readRestGuarded (options : ReadOptions) (header : ChunkHeader) (count : UInt32) (cursor : Cursor) :
    Guarded Draft (Draft → Except Fault Table) := do
  let root ← Draft.onTree (BlockTree.newContainer ChunkType.table.tag)
  let head := (← slice cursor.data 0 header.headerSize.toNat).toArray
  let packagesNode ← Draft.onTree (addHeader root head)
  let _ ← piecesGuarded header.stop (Draft.readPieceGuarded options root packagesNode) (cursor.data.size + 1) cursor
  if (← get).packages.isEmpty then
    Draft.onTree (BlockTree.addChild root packagesNode)
  return Draft.table options count root packagesNode

/-- A table by guarded accesses. -/
def readGuarded (data : Bytes) (options : ReadOptions) : Guarded state Table := do
  let ((header, count), cursor) ← on (readHeadGuarded options) { data }
  let (finish, draft) ← on (readRestGuarded options header count cursor) {}
  finish draft

end Table

/-- The string index at a position is replaced in a slice of the chunk. -/
def remapIndexGuarded (map : StringMap state) (position : Nat) : Guarded (Bytes × state) Unit := do
  let old := UInt32.ofNat (← TypeChunk.word (← get).1 position)
  let new ← (Step.onPart Prod.snd (fun state (chunk, _) => (chunk, state)) (map old) : Step (Bytes × state) UInt32)
  if new ≠ old then
    let _ ← slice (← get).1 position (position + 4)
    modify fun (chunk, state) => (chunk.putWord32 position new, state)

/-- The string indexes of an entry are replaced in slices. -/
def remapEntryGuarded (map : StringMap state) (entry : Nat) : Guarded (Bytes × state) Nat := do
  let positions ← TypeChunk.stringIndexes (← get).1 entry
  positions.forM (remapIndexGuarded map)
  return positions.length

/-- All string indexes of a type chunk are replaced in slices. -/
def remapStringsGuarded (map : StringMap state) : Guarded (Bytes × state) Nat := do
  let chunk := (← get).1
  let start ← TypeChunk.word chunk 16
  let offsets ← TypeChunk.entryOffsets chunk
  let entries := TypeChunk.distinct (offsets.map (start + ·))
  entries.foldlM (fun count entry => return count + (← remapEntryGuarded map entry)) 0

variable {data : Bytes} {position : Nat} {initial : state}

theorem ChunkHeader.follows_read (within : position ≤ data.size) :
    Follows readGuarded ChunkHeader.read { data, position } := by
  unfold readGuarded ChunkHeader.read
  refine .behind rfl (.behind rfl (.guard fun enough => ?_))
  refine .word16 within fun type stop within => .word16 within fun headerSize stop within => ?_
  refine .word32 within fun size stop within => .guard fun sizes => .behind rfl (.guard fun inside => .pure _ _)

theorem ChunkHeader.staysIn_read (data : Bytes) : ChunkHeader.read.StaysIn data := by
  intro position _ _ _ run
  obtain ⟨enough, -, -, -, -, rfl⟩ := ChunkHeader.read_eq_ok.1 run
  exact ⟨_, enough, rfl⟩

theorem Chunk.follows_read (within : position ≤ data.size) :
    Follows readGuarded Chunk.read { data, position } := by
  unfold readGuarded Chunk.read
  refine (ChunkHeader.follows_read within).bind fun header cursor run => ?_
  obtain ⟨-, -, -, -, -, rfl⟩ := ChunkHeader.read_eq_ok.1 run
  exact .seek fun inside => .peek inside fun bytes => .seek fun _ => .pure _ _

/-- The header of a chunk lies in its bytes. -/
def Chunk.Sized (chunk : Chunk) : Prop :=
  chunk.header.headerSize.toNat ≤ chunk.bytes.size

theorem Chunk.Sized.follows_keep {chunk : Chunk} (sized : chunk.Sized) (tree : BlockTree) :
    Follows chunk.keepGuarded chunk.keep tree := by
  unfold keepGuarded keep
  have head : (chunk.bytes.extract 0 chunk.header.headerSize.toNat).toList.toArray = chunk.head :=
    Array.toArray_toList
  have body : (chunk.bytes.extract chunk.header.headerSize.toNat chunk.bytes.size).toList.toArray = chunk.body :=
    Array.toArray_toList
  refine .bind_lift fun node tree _ => .slice (Nat.zero_le _) sized ?_
  rw [head]
  refine .bind_lift fun first tree _ => .slice sized (Nat.le_refl _) ?_
  rw [body]
  refine .bind_lift fun second tree _ => .bind_lift fun _ tree _ => .bind_lift fun _ tree _ => ?_
  exact .bind_lift fun _ tree _ => .pure _ _

namespace Piece

variable {stop : Nat}

theorem follows_read (within : position ≤ data.size) (before : position < stop) :
    Follows (readGuarded stop) (Piece.read stop) { data, position } := by
  unfold readGuarded Piece.read
  refine .behind rfl (.minus (Nat.le_of_lt before) (.ite (fun short => ?_) fun long => ?_))
  · refine .minus (Nat.le_of_lt before) ?_
    refine (follows_bytesAs (bounded_of_le within) "byte array" (stop - position)).bind fun gap cursor run => ?_
    have few : gap.length ≤ position + (stop - position) := by
      rw [Reader.length_of_bytesAs run]
      exact Nat.le_add_left ..
    obtain ⟨-, -, rfl⟩ := Reader.bytesAs_eq_ok.1 run
    exact .aside (.lift _ _) rfl (.minus few (.pure _ _))
  · refine (Chunk.follows_read within).bind fun found cursor _ => .guard fun _ => .pure _ _

/-- The header of a chunk lies in its bytes. -/
def Sized : Piece → Prop
  | .chunk found => found.Sized
  | .gap _ => True

theorem sized_of_isChunk {bytes : List UInt8} (isChunk : IsChunk bytes) (start : Nat) :
    (ofBytes start bytes).Sized := by
  rw [isChunk.ofBytes]
  exact isChunk.within

theorem sized_of_read {piece : Piece} {cursor : Cursor} (run : Piece.read stop { data, position } = .ok piece cursor)
    (before : position < stop) :
    piece.Sized ∧ ∃ behind, position < behind ∧ behind ≤ data.size ∧ cursor = { data, position := behind } := by
  obtain ⟨bytes, kind, stands, rfl, rfl⟩ := of_read run before
  have some : 0 < bytes.length := by
    rcases kind with ⟨isChunk, -⟩ | ⟨-, last⟩
    · exact Nat.lt_of_lt_of_le (by decide) isChunk.length_le
    · omega
  refine ⟨?_, position + bytes.length, by omega, stands.length_le (List.ne_nil_of_length_pos some), rfl⟩
  rcases kind with ⟨isChunk, -⟩ | ⟨short, -⟩
  · exact sized_of_isChunk isChunk position
  · rw [ofBytes, if_pos short]
    exact True.intro

end Piece

/-- A walk along a row takes nothing that is out of range when the visits of its pieces do not, and it ends. -/
theorem follows_walk {stop : Nat} {visit' : Piece → Guarded state Unit} {visit : Piece → Step state Unit}
    (each : ∀ piece : Piece, piece.Sized → ∀ initial, Follows (visit' piece) (visit piece) initial) {fuel : Nat}
    (within : position ≤ data.size) (enough : data.size < position + fuel) (initial : state) :
    Follows (piecesGuarded stop visit' fuel { data, position })
      (do let (pieces, result) := Piece.readAll stop fuel { data, position }
          pieces.forM visit
          result) initial := by
  -- Every piece takes bytes, so the fuel is not used up in front of the end of the data.
  induction fuel generalizing position initial with
  | zero => omega
  | succ fuel ih =>
      unfold piecesGuarded Piece.readAll
      by_cases done : stop ≤ position
      · rw [if_pos done, if_pos done]
        exact .pure _ _
      · rw [if_neg done, if_neg done]
        have reads := Piece.follows_read within (Nat.lt_of_not_le done)
        cases run : Piece.read stop { data, position } with
        | error fault cursor => exact .on_error reads run rfl
        | ok piece cursor =>
            obtain ⟨sized, behind, farther, inside, rfl⟩ :=
              Piece.sized_of_read run (Nat.lt_of_not_le done)
            refine .on reads run ?_
            have visited := (each piece sized initial).bind fun _ final _ => ih inside (by omega) final
            cases rest : Piece.readAll stop fuel { data, position := behind } with
            | mk pieces result =>
                simp only [rest] at visited ⊢
                rw [Step.forM_cons, bind_assoc]
                exact visited

theorem follows_pieces {stop : Nat} {visit' : Piece → Guarded state Unit} {visit : Piece → Step state Unit}
    (each : ∀ piece : Piece, piece.Sized → ∀ initial, Follows (visit' piece) (visit piece) initial)
    (within : position ≤ data.size) (initial : state) :
    Follows (piecesGuarded stop visit' (data.size + 1) { data, position }) (Reader.pieces stop { data, position } visit)
      initial :=
  follows_walk each within (by omega) initial

variable {limit : Nat}

theorem getNumber?_eq_some {width : Nat} (inside : position + width ≤ data.size) :
    data.getNumber? position width = some (Bytes.littleEndian (data.extract position (position + width)).toList) :=
  if_pos inside

theorem StringForm.follows_readLength (form : StringForm) (inside : limit ≤ data.size) (initial : state) :
    Follows (form.readLengthGuarded data position limit) (liftM (form.readLength data position limit)) initial := by
  unfold readLengthGuarded readLength
  dsimp only
  by_cases beyond : limit < position + form.slotBytes
  · rw [if_pos beyond, if_pos beyond]
    rfl
  rw [if_neg beyond, if_neg beyond, getNumber?_eq_some (by omega), Option.getD_some]
  refine .slice (Nat.le_add_right ..) (by omega) ?_
  split
  · rfl
  split
  · rfl
  rename_i enough
  have second : position + 2 * form.slotBytes = position + form.slotBytes + form.slotBytes := by omega
  rw [second, getNumber?_eq_some (by omega), Option.getD_some]
  exact .slice (Nat.le_add_right ..) (by omega) rfl

theorem follows_readUtf8String (inside : limit ≤ data.size) (initial : state) :
    Follows (readUtf8StringGuarded data position limit) (liftM (readUtf8String data position limit)) initial := by
  unfold readUtf8StringGuarded readUtf8String
  refine .bind_except (StringForm.utf8.follows_readLength inside initial) fun (_, start) first => ?_
  refine .bind_except (StringForm.utf8.follows_readLength inside initial) fun (length, behind) second => ?_
  refine .guard_except fun before => ?_
  have last : behind + length < data.size := by omega
  refine .slice (Nat.le_add_right ..) (Nat.le_of_lt last) (.byteAt last ?_)
  rw [Array.getElem?_eq_getElem last]
  simp only [ne_eq, Option.some.injEq]
  refine .guard_except fun _ => ?_
  cases Text.ofModifiedUtf8? (data.extract behind (behind + length)).toList <;> rfl

/-- A 16-bit word is zero when both of its bytes are. -/
theorem getWord16?_eq_zero (inside : position + 1 < data.size) :
    data.getWord16? position = some 0 ↔ data[position] = 0 ∧ data[position + 1] = 0 := by
  have bytes : (data.extract position (position + 2)).toList = [data[position], data[position + 1]] := by
    have length : data.toList.length = data.size := Array.length_toList
    rw [Array.toList_extract, List.extract_eq_take_drop, List.drop_eq_getElem_cons (by omega),
      List.drop_eq_getElem_cons (by omega), Nat.add_sub_cancel_left]
    rfl
  rw [Bytes.getWord16?, getNumber?_eq_some (by omega), bytes, Option.map_some, Option.some.injEq]
  constructor
  · intro zero
    have both := Bytes.ofWord16_littleEndian data[position] data[position + 1]
    rw [zero] at both
    simpa [Bytes.ofWord16, eq_comm] using both
  · rintro ⟨low, high⟩
    rw [low, high]
    rfl

theorem follows_readUtf16String (inside : limit ≤ data.size) (initial : state) :
    Follows (readUtf16StringGuarded data position limit) (liftM (readUtf16String data position limit)) initial := by
  unfold readUtf16StringGuarded readUtf16String
  refine .bind_except (StringForm.utf16.follows_readLength inside initial) fun (length, start) first => ?_
  refine .guard_except fun before => ?_
  have last : start + 2 * length + 1 < data.size := by omega
  refine .slice (Nat.le_add_right ..) (by omega) (.byteAt (by omega) (.byteAt last ?_))
  have zero : data.getWord16? (start + 2 * length) ≠ some 0 ↔
      data[start + 2 * length] ≠ 0 ∨ data[start + 2 * length + 1] ≠ 0 := by
    rw [ne_eq, getWord16?_eq_zero last]
    exact Decidable.not_and_iff_or_not
  simp only [zero]
  refine .guard_except fun _ => ?_
  cases Text.ofUtf16? (unitsOfBytes (data.extract start (start + 2 * length)).toList) <;> rfl

theorem StringForm.follows_read (form : StringForm) (inside : limit ≤ data.size) (initial : state) :
    Follows (form.readGuarded data position limit) (liftM (form.read data position limit)) initial := by
  cases form with
  | utf8 => exact follows_readUtf8String inside initial
  | utf16 => exact follows_readUtf16String inside initial

namespace StringPool

theorem follows_readStrings (form : StringForm) (start : Nat) (inside : limit ≤ data.size) (offsets : List UInt32)
    (strings : Array String) (initial : state) :
    Follows (readStringsGuarded form data start limit offsets strings)
      (liftM (readStrings form data start limit offsets strings)) initial := by
  induction offsets generalizing strings with
  | nil => rfl
  | cons offset rest ih =>
      unfold readStringsGuarded readStrings
      exact .bind_except ((form.follows_read inside initial).within_except _) fun text _ => ih _

theorem follows_readFields (within : position ≤ data.size) :
    Follows readFieldsGuarded readFields { data, position } := by
  unfold readFieldsGuarded readFields
  refine .word32 within fun _ _ within => .word32 within fun _ _ within => .word32 within fun _ _ within => ?_
  exact .word32 within fun _ _ within => .word32 within fun _ _ _ => .pure _ _

theorem staysIn_readFields (data : Bytes) : readFields.StaysIn data := by
  have word := staysIn_word32 data
  unfold readFields
  refine staysIn_bind word fun _ => staysIn_bind word fun _ => staysIn_bind word fun _ => ?_
  exact staysIn_bind word fun _ => staysIn_bind word fun _ => staysIn_pure _ data

theorem follows_reader : Follows readerGuarded reader { data } := by
  unfold readerGuarded reader
  refine .get ((ChunkHeader.follows_read (Nat.zero_le _)).bind fun header cursor run => ?_)
  obtain ⟨enough, -, -, -, stop, rfl⟩ := ChunkHeader.read_eq_ok.1 run
  refine .guard fun _ => .guard fun _ => ?_
  refine (follows_readFields enough).read (staysIn_readFields data) enough fun fields _ _ => .seek fun within => ?_
  refine .words within fun offsets position within => .words within fun styleOffsets position within => ?_
  refine .bind_result (follows_readStrings _ _ stop offsets #[] _) fun strings _ => .guard fun styles => ?_
  by_cases none : fields.styles = 0
  · simp only [if_pos none]
    exact .slice (Nat.zero_le _) stop (.pure _ _)
  · simp only [if_neg none]
    have before : ¬(fields.stylesStart < fields.stringsStart ∨ header.stop < fields.stylesStart.toNat) :=
      fun outside => styles ⟨none, outside⟩
    exact .slice (by omega) stop (.slice (Nat.zero_le _) stop (.pure _ _))

theorem follows_read (initial : state) : Follows (readGuarded data) (liftM (StringPool.read data)) initial := by
  unfold readGuarded StringPool.read Reader.run EStateM.run
  cases run : reader { data } with
  | ok pool cursor => exact .on follows_reader run (.pure _ _)
  | error fault cursor => exact .on_error follows_reader run rfl

end StringPool

namespace Package

theorem follows_decodeName {header : Bytes} (long : minHeaderSize ≤ header.size) (initial : state) :
    Follows (decodeNameGuarded header) (pure (decodeName header)) initial :=
  .slice (Nat.le_add_right ..) (Nat.le_trans (by decide) long) (.pure _ _)

theorem follows_readHead : Follows readHeadGuarded readHead { data } := by
  unfold readHeadGuarded readHead
  refine .get ((ChunkHeader.follows_read (Nat.zero_le _)).bind fun header cursor run => ?_)
  obtain ⟨enough, -, -, inside, stop, rfl⟩ := ChunkHeader.read_eq_ok.1 run
  unfold ChunkHeader.stop at stop
  have fits : header.headerSize.toNat ≤ data.size := by omega
  refine .guard fun long => .slice (Nat.zero_le _) fits ?_
  have size : (data.extract 0 header.headerSize.toNat).size = header.headerSize.toNat := by
    rw [Array.size_extract]
    omega
  have name (cursor : Cursor) := follows_decodeName ((Nat.le_of_not_lt long).trans_eq size.symm) cursor
  rw [Array.toArray_toList]
  refine .word32 enough fun id _ _ => .aside (name _) rfl (.seek fun within => ?_)
  exact .word32 within fun types _ _ => .seek fun within => .word32 within fun keys _ _ => .seek fun _ => .pure _ _

theorem staysIn_readHead (data : Bytes) : readHead.StaysIn data := by
  have word := staysIn_word32 data
  have seek (target : Nat) := staysIn_seek target data
  unfold readHead
  refine staysIn_get fun _ => staysIn_bind (ChunkHeader.staysIn_read data) fun chunk => staysIn_guard ?_
  refine staysIn_bind word fun id => staysIn_bind (seek _) fun _ => staysIn_bind word fun types => ?_
  refine staysIn_bind (seek _) fun _ => staysIn_bind word fun keys => staysIn_bind (seek _) fun _ => ?_
  exact staysIn_pure _ data

variable {options : ReadOptions} {pool? : ChunkHeader → Option PackagePool} {package : Package}

theorem follows_readChunk {chunk : Chunk} (sized : chunk.Sized) (initial : BlockTree × Package) :
    Follows (readChunkGuarded options pool? chunk) (readChunk options pool? chunk) initial := by
  unfold readChunkGuarded readChunk
  refine .get ?_
  dsimp only
  cases pool? chunk.header with
  | some which =>
      refine .bind_result (StringPool.follows_read initial) fun pool _ => .bind_lift fun leaf final _ => ?_
      exact .bind_lift fun _ _ _ => .pure _ _
  | none =>
      refine .bind_lift fun _ final _ => ?_
      refine (Follows.onPart (sized.follows_keep _)).bind fun node final _ => ?_
      exact .bind_lift fun _ _ _ => .pure _ _

theorem follows_readPiece {node : NodeId} {piece : Piece} (sized : piece.Sized) (initial : BlockTree × Package) :
    Follows (readPieceGuarded options pool? node piece) (readPiece options pool? node piece) initial := by
  unfold readPieceGuarded readPiece
  cases piece with
  | gap bytes => exact .bind_lift fun _ _ _ => .lift _ _
  | chunk chunk => exact (follows_readChunk sized initial).bind fun _ _ _ => .lift _ _

theorem follows_readBehind (within : position ≤ data.size) (head : Head) (tree : BlockTree) :
    Follows (readBehindGuarded options head { data, position }) (readBehind options head { data, position }) tree := by
  unfold readBehindGuarded readBehind
  refine .bind_lift fun (node, header) tree _ => .get ?_
  have row : Follows (Guarded.within (title head.id) (piecesGuarded head.chunk.stop
        (readPieceGuarded options (poolAt? head.types head.keys) node) (data.size + 1) { data, position }))
      (Step.within (title head.id) (Reader.pieces head.chunk.stop { data, position }
        (readPiece options (poolAt? head.types head.keys) node)))
      (tree, { id := head.id, name := head.name, node, header }) :=
    (follows_pieces (fun _ sized => follows_readPiece sized) within _).within _
  dsimp only
  cases run : Step.within (title head.id) (Reader.pieces head.chunk.stop { data, position }
      (readPiece options (poolAt? head.types head.keys) node))
      (tree, { id := head.id, name := head.name, node, header }) with
  | ok cursor final =>
      rw [row.ok run]
      exact .bind_lift fun _ _ _ => .pure _ _
  | error fault final =>
      rw [row.error run]
      exact .bind_lift fun _ _ _ => rfl

theorem follows_read (options : ReadOptions) (tree : BlockTree) :
    Follows (readGuarded data options) (Package.read data options) tree := by
  unfold readGuarded
  cases run : readHead { data } with
  | error fault cursor => exact .on_error follows_readHead run (read_of_fault run options tree)
  | ok head cursor =>
      obtain ⟨position, within, rfl⟩ := staysIn_readHead data (Nat.zero_le _) run
      rw [read_of_head run]
      exact .on follows_readHead run (follows_readBehind within head tree)

theorem follows_pushChunk (package : Package) (tree : BlockTree) :
    Follows (package.pushChunkGuarded data) (package.pushChunk data) tree := by
  unfold pushChunkGuarded pushChunk
  cases run : Chunk.read { data } with
  | error fault cursor => exact .on_error (Chunk.follows_read (Nat.zero_le _)) run rfl
  | ok chunk cursor =>
      obtain ⟨bytes, isChunk, -, rfl, rfl⟩ := Chunk.read_eq_ok.1 run
      have sized : (Chunk.ofBytes 0 bytes).Sized := isChunk.within
      refine .on (Chunk.follows_read (Nat.zero_le _)) run ?_
      dsimp only
      rw [pure_bind]
      refine .guard fun _ => .guard fun _ => ?_
      refine (sized.follows_keep tree).bind fun node final _ => .bind_lift fun _ _ _ => .pure _ _

end Package

namespace Table

variable {options : ReadOptions} {packagesNode root : NodeId}

theorem Draft.follows_readStrings {chunk : Chunk} (initial : Draft) :
    Follows (readStringsGuarded chunk) (Draft.readStrings chunk) initial := by
  unfold readStringsGuarded Draft.readStrings
  refine .bind_result ((StringPool.follows_read initial).within_except _) fun pool _ => ?_
  exact .bind_lift fun leaf _ _ => .bind_lift fun _ _ _ => .pure _ _

theorem Draft.follows_readPackage {chunk : Chunk} (initial : Draft) :
    Follows (readPackageGuarded options packagesNode chunk) (Draft.readPackage options packagesNode chunk) initial := by
  unfold readPackageGuarded Draft.readPackage
  refine (Follows.onPart (Package.follows_read options _)).bind fun package final _ => ?_
  exact .bind_lift fun _ _ _ => .get (.bind_lift fun _ _ _ => .pure _ _)

theorem Draft.follows_readChunk {chunk : Chunk} (sized : chunk.Sized) (initial : Draft) :
    Follows (readChunkGuarded options packagesNode chunk) (Draft.readChunk options packagesNode chunk) initial := by
  unfold readChunkGuarded Draft.readChunk
  refine .get (.ite (fun _ => (follows_readStrings initial).map _) fun _ => ?_)
  refine .ite (fun _ => follows_readPackage initial) fun _ => ?_
  exact .bind_lift fun _ _ _ => (Follows.onPart (sized.follows_keep _)).map _

theorem Draft.follows_readPiece {piece : Piece} (sized : piece.Sized) (initial : Draft) :
    Follows (readPieceGuarded options root packagesNode piece) (Draft.readPiece options root packagesNode piece)
      initial := by
  unfold readPieceGuarded Draft.readPiece
  cases piece with
  | gap bytes =>
      exact ((Follows.lift _ _).map _).bind fun node _ _ => by
        cases node with
        | none => exact .pure _ _
        | some node => exact .lift _ _
  | chunk chunk =>
      exact (follows_readChunk sized initial).bind fun node _ _ => by
        cases node with
        | none => exact .pure _ _
        | some node => exact .lift _ _

theorem follows_readHead : Follows (readHeadGuarded options) (readHead options) { data } := by
  unfold readHeadGuarded readHead
  refine .get ((ChunkHeader.follows_read (Nat.zero_le _)).bind fun header cursor run => ?_)
  obtain ⟨enough, -, -, inside, stop, rfl⟩ := ChunkHeader.read_eq_ok.1 run
  refine .guard fun _ => .guard fun _ => .guard fun _ => .minus stop (.word32 enough fun count _ _ => ?_)
  exact .seek fun _ => .pure _ _

theorem follows_readRest {header : ChunkHeader} {count : UInt32} (within : position ≤ data.size)
    (inside : header.headerSize.toNat ≤ data.size) (initial : Draft) :
    Follows (readRestGuarded options header count { data, position })
      (readRest options header count { data, position }) initial := by
  unfold readRestGuarded readRest
  refine .bind_lift fun root draft _ => .slice (Nat.zero_le _) inside ?_
  rw [Array.toArray_toList]
  refine .bind_lift fun packagesNode draft _ => ?_
  refine (follows_pieces (fun _ sized => Draft.follows_readPiece sized) within draft).bind fun _ draft _ => ?_
  exact .get (.ite (fun _ => .bind_lift fun _ _ _ => .pure _ _) fun _ => .pure _ _)

/-- Behind the head of a table the cursor and the header lie in the data. -/
theorem inside_of_readHead {header : ChunkHeader} {count : UInt32} {cursor : Cursor}
    (run : readHead options { data } = .ok (header, count) cursor) :
    header.headerSize.toNat ≤ data.size ∧ ∃ position ≤ data.size, cursor = { data, position } := by
  unfold readHead at run
  rw [Step.bind_ok (Step.get_apply _)] at run
  obtain ⟨header, between, first, run⟩ := Step.bind_eq_ok.1 run
  obtain ⟨enough, -, -, -, -, rfl⟩ := ChunkHeader.read_eq_ok.1 first
  dsimp only at run
  rw [Step.guard_eq_ok, Step.guard_eq_ok, Step.guard_eq_ok] at run
  obtain ⟨-, -, -, run⟩ := run
  obtain ⟨count, between, second, run⟩ := Step.bind_eq_ok.1 run
  obtain ⟨stop, -, rfl⟩ := staysIn_word32 data enough second
  obtain ⟨_, between, third, run⟩ := Step.bind_eq_ok.1 run
  obtain ⟨inside, rfl⟩ := Reader.seek_eq_ok.1 third
  cases run
  exact ⟨inside, _, inside, rfl⟩

theorem follows_read (options : ReadOptions) (initial : state) :
    Follows (readGuarded data options) (liftM (Table.read data options)) initial := by
  unfold readGuarded Table.read
  cases head : readHead options { data } with
  | error fault cursor => exact .on_error follows_readHead head rfl
  | ok found cursor =>
      obtain ⟨header, count⟩ := found
      obtain ⟨inside, position, within, rfl⟩ := inside_of_readHead head
      refine .on follows_readHead head ?_
      dsimp only
      cases run : readRest options header count { data, position } {} with
      | error fault draft => exact .on_error (follows_readRest within inside {}) run rfl
      | ok finish draft => exact .on (follows_readRest within inside {}) run (.lift _ _)

end Table

theorem TypeChunk.le_size_of_word {chunk : Bytes} {value : Nat} (run : TypeChunk.word chunk position = .ok value) :
    position + 4 ≤ chunk.size := by
  unfold TypeChunk.word at run
  cases found : chunk.getWord32? position with
  | none =>
      rw [found] at run
      cases run
  | some word => exact Bytes.le_size_of_getWord32? found

variable {map : StringMap state}

theorem follows_remapIndex (initial : Bytes × state) :
    Follows (remapIndexGuarded map position) (remapIndex map position) initial := by
  unfold remapIndexGuarded remapIndex
  refine .get (.bind_result (.lift _ _) fun word found => .bind_lift fun new final run => ?_)
  have inside := TypeChunk.le_size_of_word found
  obtain ⟨image, -, rfl⟩ := Step.onPart_eq_ok.1 run
  refine .ite (fun _ => ?_) fun _ => .pure _ _
  exact .aside (.lift _ _) rfl (.slice (Nat.le_add_right ..) inside (.lift _ _))

theorem follows_remapEntry (entry : Nat) (initial : Bytes × state) :
    Follows (remapEntryGuarded map entry) (remapEntry map entry) initial := by
  unfold remapEntryGuarded remapEntry
  refine .get (.bind_result (.lift _ _) fun positions _ => ?_)
  exact (Follows.forM (fun _ _ initial => follows_remapIndex initial) initial).bind fun _ _ _ => .pure _ _

theorem follows_remapStrings (initial : Bytes × state) :
    Follows (remapStringsGuarded map) (remapStrings map) initial := by
  unfold remapStringsGuarded remapStrings
  refine .get (.bind_result (.lift _ _) fun start _ => .bind_result (.lift _ _) fun offsets _ => ?_)
  exact .foldlM (fun entry _ count initial => (follows_remapEntry entry initial).bind fun _ _ _ => .pure _ _) 0 initial

/-- Whatever the data, the options, the tree and the map are: tables, packages and string pools are read, chunks are
appended and string indexes are replaced, or they are refused, with every slice, byte and difference in range, and every
walk along a row ends. Memory is left out: a string pool reserves lists for as many strings and styles as its header
declares before it reads their offsets, and a complex entry lists as many values as it declares, even past the end of
the chunk. -/
theorem accesses_in_range (data : Bytes) (options : ReadOptions) :
    (Table.readGuarded data options).value? = some (Table.read data options) ∧
    (∀ tree, (Package.readGuarded data options).outcome? tree = some (Package.read data options tree)) ∧
    (StringPool.readGuarded data).value? = some (StringPool.read data) ∧
    (∀ (package : Package) tree, (package.pushChunkGuarded data).outcome? tree = some (package.pushChunk data tree)) ∧
    ∀ {state : Type} (map : StringMap state) (initial : state),
      (remapStringsGuarded map).outcome? (data, initial) = some (remapStrings map (data, initial)) :=
  ⟨(Table.follows_read options ()).value?_eq, Package.follows_read options,
    (StringPool.follows_read ()).value?_eq, Package.follows_pushChunk,
    fun _ initial => follows_remapStrings (data, initial)⟩

end DexArsc.Resource
