/-
String pools. A string is stored with its length in UTF-16 code units, behind it in a UTF-8 pool
with its length in bytes, and ends with a zero. Styles are kept as bytes: their places are counted
from the start of the style area, so new string data does not change them. A pool that was never
modified is written as it was read.
-/

import Std.Data.HashMap
import DexArsc.Bytes.Cursor
import DexArsc.Resource.Chunk
import DexArsc.Text.Encoding

namespace DexArsc.Resource

/-- The forms of the strings in a pool. -/
inductive StringForm
  | utf8
  | utf16
  deriving DecidableEq, Inhabited

namespace StringForm

/-- A length is stored in one slot or, with the highest bit set, in two. The slots of a form have
this many bits. -/
def slotBits : StringForm → Nat
  | utf8 => 8
  | utf16 => 16

/-- The number of bytes of a slot. -/
def slotBytes (form : StringForm) : Nat :=
  form.slotBits / 8

/-- The bytes of a slot. -/
def encodeSlot (form : StringForm) (value : Nat) : List UInt8 :=
  match form with
  | utf8 => [UInt8.ofNat value]
  | utf16 => Bytes.ofWord16 (UInt16.ofNat value)

/-- The bytes of a length. -/
def encodeLength (form : StringForm) (length : Nat) : List UInt8 :=
  let long := 1 <<< (form.slotBits - 1)
  if length < long then
    form.encodeSlot length
  else
    form.encodeSlot (long + (length >>> form.slotBits) % long) ++ form.encodeSlot length

/-- The failure of a length that begins at or behind the limit. -/
def lengthBeyond (form : StringForm) (position : Nat) : Cause :=
  .resource (match form with
    | utf8 => .utf8LengthBeyond position
    | utf16 => .utf16LengthBeyond position)

/-- The failure of a length that passes the limit. -/
def lengthTruncated (form : StringForm) (position : Nat) : Cause :=
  .resource (match form with
    | utf8 => .utf8LengthTruncated position
    | utf16 => .utf16LengthTruncated position)

/-- The length at a position, and the position behind it. -/
def readLength (form : StringForm) (data : Bytes) (position limit : Nat) :
    Except Fault (Nat × Nat) :=
  let width := form.slotBytes
  let long := 1 <<< (form.slotBits - 1)
  if limit < position + width then
    fail (form.lengthBeyond position)
  else
    let first := (data.getNumber? position width).getD 0
    if first < long then
      .ok (first, position + width)
    else if limit < position + 2 * width then
      fail (form.lengthTruncated position)
    else
      let second := (data.getNumber? (position + width) width).getD 0
      .ok ((first - long) <<< form.slotBits + second, position + 2 * width)

end StringForm

/-- The text of UTF-8 data at a position. The length in code units is not checked. -/
def readUtf8String (data : Bytes) (position limit : Nat) : Except Fault String := do
  let (_, start) ← StringForm.utf8.readLength data position limit
  let (length, start) ← StringForm.utf8.readLength data start limit
  let stop := start + length
  if limit ≤ stop then
    fail (.resource (.utf8Beyond position))
  if data[stop]? ≠ some 0 then
    fail (.resource (.utf8Unterminated position))
  match Text.ofModifiedUtf8? (data.extract start stop).toList with
  | some text => return text
  | none => fail (.resource (.utf8Invalid position))

/-- The code units of bytes in pairs. -/
def unitsOfBytes : List UInt8 → List UInt16
  | low :: high :: rest => UInt16.ofNat (Bytes.littleEndian [low, high]) :: unitsOfBytes rest
  | _ => []

/-- The text of UTF-16 data at a position. -/
def readUtf16String (data : Bytes) (position limit : Nat) : Except Fault String := do
  let (length, start) ← StringForm.utf16.readLength data position limit
  let stop := start + 2 * length
  if limit < stop + 2 then
    fail (.resource (.utf16Beyond position))
  if data.getWord16? stop ≠ some 0 then
    fail (.resource (.utf16Unterminated position))
  match Text.ofUtf16? (unitsOfBytes (data.extract start stop).toList) with
  | some text => return text
  | none => fail (.resource (.utf16Invalid position))

namespace StringForm

/-- The text at a position of data that ends at a limit. -/
def read : StringForm → (data : Bytes) → (position limit : Nat) → Except Fault String
  | utf8 => readUtf8String
  | utf16 => readUtf16String

/-- The bytes of a text. -/
def encode (form : StringForm) (text : String) : List UInt8 :=
  let units := form.encodeLength (Text.unitCount text)
  match form with
  | utf8 => units ++ form.encodeLength text.utf8ByteSize ++ Text.toUtf8 text ++ [0]
  | utf16 => units ++ (Text.units text).flatMap Bytes.ofWord16 ++ [0, 0]

/-- The greatest length of a string: in bytes and in code units in a UTF-8 pool, and in code
units in a UTF-16 pool. -/
def maxLength (form : StringForm) : Nat :=
  (1 <<< (2 * form.slotBits - 1)) - 1

/-- A text that is too long for its lengths is refused. -/
def check (form : StringForm) (text : String) : Except Fault Unit :=
  let units := Text.unitCount text
  match form with
  | utf8 =>
    if form.maxLength < max units text.utf8ByteSize then
      fail (.resource (.tooLongForUtf8 text.utf8ByteSize))
    else
      .ok ()
  | utf16 =>
    if form.maxLength < units then fail (.resource (.tooLongForUtf16 units)) else .ok ()

end StringForm

/-- A string pool. -/
structure StringPool where
  flags : UInt32
  strings : Array String := #[]
  /-- The places of the styles in the style area. -/
  styleOffsets : List UInt32 := []
  styleData : List UInt8 := []
  /-- The chunk that the pool was read from. -/
  source : List UInt8 := []
  modified : Bool
  deriving DecidableEq

namespace StringPool

/-- The flag of sorted strings. -/
def sortedFlag : UInt32 := 0x1

/-- The flag of UTF-8 strings. -/
def utf8Flag : UInt32 := 0x100

/-- The size of a pool's header. -/
def headerSize : Nat := 28

/-- A pool without strings, which is written from scratch. -/
def empty (form : StringForm) : StringPool where
  flags := if form = .utf8 then utf8Flag else 0
  modified := true

/-- The form of the strings. -/
def form (pool : StringPool) : StringForm :=
  if pool.flags &&& utf8Flag ≠ 0 then .utf8 else .utf16

/-- The number of strings. -/
def size (pool : StringPool) : Nat :=
  pool.strings.size

/-- The string at an index. -/
def get? (pool : StringPool) (index : UInt32) : Option String :=
  pool.strings[index.toNat]?

/-- The first index of a string. -/
def indexOf? (pool : StringPool) (text : String) : Option UInt32 :=
  (pool.strings.findIdx? (· == text)).map UInt32.ofNat

/-- The pool with other strings, which are no longer known to be sorted. -/
def withStrings (pool : StringPool) (strings : Array String) : StringPool :=
  { pool with strings, flags := pool.flags &&& ~~~sortedFlag, modified := true }

/-- The index of a string, which is appended when the pool lacks it. -/
def intern (pool : StringPool) (text : String) : Except Fault (UInt32 × StringPool) :=
  match pool.indexOf? text with
  | some index => .ok (index, pool)
  | none => do
    pool.form.check text
    return (UInt32.ofNat pool.size, pool.withStrings (pool.strings.push text))

/-- The string at an index is replaced. -/
def set (pool : StringPool) (index : UInt32) (text : String) : Except Fault StringPool := do
  if pool.size ≤ index.toNat then
    fail (.resource (.stringBeyond index.toNat pool.size))
  pool.form.check text
  if pool.get? index = some text then
    return pool
  else
    return pool.withStrings (pool.strings.setIfInBounds index.toNat text)

/-- The header of a pool behind the fields of every chunk. -/
structure Fields where
  strings : UInt32
  styles : UInt32
  flags : UInt32
  stringsStart : UInt32
  stylesStart : UInt32

/-- Reading yields the header fields of a pool. -/
def readFields : Reader Fields :=
  return {
    strings := ← Reader.word32
    styles := ← Reader.word32
    flags := ← Reader.word32
    stringsStart := ← Reader.word32
    stylesStart := ← Reader.word32 }

/-- The strings at offsets from a start, with their indexes from `index` on, behind the strings
that are already read. -/
def readStrings (form : StringForm) (data : Bytes) (start limit : Nat) :
    List UInt32 → Array String → Except Fault (Array String)
  | [], strings => .ok strings
  | offset :: rest, strings => do
    let text ← Except.within s!"string {strings.size}"
      (form.read data (start + offset.toNat) limit)
    readStrings form data start limit rest (strings.push text)

/-- Reading yields the pool in a chunk at the start of the data. -/
def reader : Reader StringPool := do
  let data := (← get).data
  let header ← ChunkHeader.read
  if header.type ≠ .stringPool then
    fail (.resource (.notStringPool header.type))
  if header.headerSize.toNat < headerSize then
    fail (.resource (.shortPoolHeader header.headerSize.toNat))
  let fields ← readFields
  Reader.seek header.headerSize.toNat
  let offsets ← Reader.word32.replicate fields.strings.toNat
  let styleOffsets ← Reader.word32.replicate fields.styles.toNat
  let pool : StringPool := { flags := fields.flags, modified := false }
  let strings ← readStrings pool.form data fields.stringsStart.toNat header.stop offsets #[]
  let stylesStart := fields.stylesStart.toNat
  if fields.styles ≠ 0 ∧ (fields.stylesStart < fields.stringsStart ∨ header.stop < stylesStart) then
    fail (.resource (.stylesOutside stylesStart))
  return { pool with
    strings
    styleOffsets
    styleData := if fields.styles = 0 then [] else (data.extract stylesStart header.stop).toList
    source := (data.extract 0 header.stop).toList }

/-- The pool in a chunk at the start of the data. -/
def read (data : Bytes) : Except Fault StringPool :=
  reader.run data

/-- The bytes of strings one behind the other, and the offset of each of them. -/
def stringArea (form : StringForm) (strings : Array String) : Bytes × Array UInt32 :=
  strings.foldl (fun (area, offsets) text =>
    ((form.encode text).foldl Array.push area, offsets.push (UInt32.ofNat area.size))) (#[], #[])

/-- Bytes with zeros up to the next multiple of four. -/
def padToWord (bytes : List UInt8) : List UInt8 :=
  bytes ++ ({} : Padding).bytesAt bytes.length

/-- The chunk of a pool, written from scratch. -/
def encodeNew (pool : StringPool) : List UInt8 :=
  let (area, offsets) := stringArea pool.form pool.strings
  let strings := padToWord area.toList
  let tables := headerSize + 4 * (pool.size + pool.styleOffsets.length)
  let stringsStart := if pool.size = 0 then 0 else tables
  let stylesStart := if pool.styleOffsets.isEmpty then 0 else tables + strings.length
  let word (value : Nat) : List UInt8 := Bytes.ofWord32 (UInt32.ofNat value)
  let contents := padToWord (offsets.toList.flatMap Bytes.ofWord32 ++
    pool.styleOffsets.flatMap Bytes.ofWord32 ++ strings ++ pool.styleData)
  Bytes.ofWord16 ChunkType.stringPool.code ++ Bytes.ofWord16 (UInt16.ofNat headerSize) ++
    word (headerSize + contents.length) ++ word pool.size ++ word pool.styleOffsets.length ++
    Bytes.ofWord32 pool.flags ++ word stringsStart ++ word stylesStart ++ contents

/-- The chunk of a pool. -/
def toChunk (pool : StringPool) : List UInt8 :=
  if pool.modified then pool.encodeNew else pool.source

end StringPool

/-- A string pool with a map of its strings to their first indexes, which is kept along with the strings. -/
structure IndexedPool where
  pool : StringPool
  firsts : Std.HashMap String UInt32 := {}

namespace IndexedPool

/-- The first index of each string of an array. -/
def firstIndexes (strings : Array String) : Std.HashMap String UInt32 :=
  strings.toList.zipIdx.foldl (fun firsts (text, place) => firsts.insertIfNew text (UInt32.ofNat place)) {}

/-- A pool without strings, which is written from scratch. -/
def empty (form : StringForm) : IndexedPool where
  pool := .empty form

/-- The pool in a chunk at the start of the data. -/
def read (data : Bytes) : Except Fault IndexedPool := do
  let pool ← StringPool.read data
  return { pool, firsts := firstIndexes pool.strings }

/-- The first index of a string. -/
def indexOf? (indexed : IndexedPool) (text : String) : Option UInt32 :=
  indexed.firsts[text]?

/-- The strings are other ones than those that were read, and no longer known to be sorted. -/
def markModified : Step IndexedPool Unit :=
  modify fun indexed => { indexed with pool :=
    { indexed.pool with flags := indexed.pool.flags &&& ~~~StringPool.sortedFlag, modified := true } }

/-- The index of a string, which is appended when the map lacks it. -/
def intern (text : String) : Step IndexedPool UInt32 := do
  if let some index := (← get).indexOf? text then
    return index
  (← get).pool.form.check text
  let index := UInt32.ofNat (← get).pool.size
  modify fun indexed => { indexed with pool := { indexed.pool with strings := indexed.pool.strings.push text } }
  modify fun indexed => { indexed with firsts := indexed.firsts.insert text index }
  markModified
  return index

/-- The string at an index is replaced, and the map is computed anew. -/
def set (index : UInt32) (text : String) : Step IndexedPool Unit := do
  let pool := (← get).pool
  if pool.size ≤ index.toNat then
    fail (.resource (.stringBeyond index.toNat pool.size))
  pool.form.check text
  if pool.get? index = some text then
    return
  modify fun indexed => { indexed with pool :=
    { indexed.pool with strings := indexed.pool.strings.setIfInBounds index.toNat text } }
  modify fun indexed => { indexed with firsts := firstIndexes indexed.pool.strings }
  markModified

end IndexedPool
end DexArsc.Resource
