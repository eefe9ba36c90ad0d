/-
File headers.
-/

import DexArsc.Bytes.Cursor
import DexArsc.Dex.Kind

namespace DexArsc.Dex

/-- A number of items and their place in the file. -/
structure Area where
  size : UInt32 := 0
  offset : UInt32 := 0
  deriving DecidableEq, Inhabited

/-- The magic value of version 039. -/
def currentMagic : List UInt8 := [0x64, 0x65, 0x78, 0x0a, 0x30, 0x33, 0x39, 0x00]

/-- The size of a header. -/
def headerSize : Nat := 0x70

/-- The endian tag of a little-endian file. -/
def littleEndianTag : UInt32 := 0x12345678

/-- The endian tag of a big-endian file. -/
def bigEndianTag : UInt32 := 0x78563412

/-- A file header. -/
structure Header where
  magic : List UInt8 := currentMagic
  checksum : UInt32 := 0
  signature : List UInt8 := List.replicate 20 0
  fileSize : UInt32 := 0x70
  size : UInt32 := 0x70
  endianTag : UInt32 := littleEndianTag
  linkData : Area := {}
  mapOffset : UInt32 := 0
  strings : Area := {}
  types : Area := {}
  protos : Area := {}
  fields : Area := {}
  methods : Area := {}
  classes : Area := {}
  data : Area := {}
  deriving DecidableEq, Inhabited

/-- The number with the given decimal digits. -/
def decimal? (digits : List UInt8) : Option Nat :=
  digits.foldlM (fun value digit =>
    if 0x30 ≤ digit && digit ≤ 0x39 then some (value * 10 + (digit.toNat - 0x30)) else none) 0

namespace Header

/-- The version that the magic value names with three digits, the first of which may be a plus
sign. -/
def version? (header : Header) : Option Nat :=
  match (header.magic.drop 4).take 3 with
  | 0x2b :: digits => decimal? digits
  | digits => decimal? digits

/-- The header with the count and the place of an id section. An empty section has no place. -/
def setArea (header : Header) (kind : SectionKind) (size offset : UInt32) : Header :=
  let area : Area := { size, offset := if size = 0 then 0 else offset }
  match kind with
  | .stringId => { header with strings := area }
  | .typeId => { header with types := area }
  | .protoId => { header with protos := area }
  | .fieldId => { header with fields := area }
  | .methodId => { header with methods := area }
  | .classDef => { header with classes := area }
  | _ => header

/-- The id sections that a header counts. -/
def idAreas (header : Header) : List (SectionKind × Area) :=
  [(.stringId, header.strings), (.typeId, header.types), (.protoId, header.protos),
    (.fieldId, header.fields), (.methodId, header.methods), (.classDef, header.classes)]

end Header

/-- Reading yields a count and a place. -/
def readArea : Reader Area :=
  return { size := ← Reader.word32, offset := ← Reader.word32 }

/-- The bytes of a count and a place. -/
def Area.bytes (area : Area) : List UInt8 :=
  Bytes.ofWord32 area.size ++ Bytes.ofWord32 area.offset

instance : Codec Header where
  read := do
    let remaining ← Reader.remaining
    if remaining < headerSize then
      fail (.dex (.shortHeader remaining))
    let magic ← Reader.bytes 8
    if magic.take 4 ≠ currentMagic.take 4 ∨ magic.drop 7 ≠ [0] then
      fail (.dex (.invalidMagic magic))
    let header : Header := {
      magic
      checksum := ← Reader.word32
      signature := ← Reader.bytes 20
      fileSize := ← Reader.word32
      size := ← Reader.word32
      endianTag := ← Reader.word32
      linkData := ← readArea
      mapOffset := ← Reader.word32
      strings := ← readArea
      types := ← readArea
      protos := ← readArea
      fields := ← readArea
      methods := ← readArea
      classes := ← readArea
      data := ← readArea }
    if header.endianTag = bigEndianTag then
      fail (.dex .bigEndian)
    if header.endianTag ≠ littleEndianTag then
      fail (.dex (.invalidEndianTag header.endianTag))
    return header
  encode header :=
    header.magic ++ Bytes.ofWord32 header.checksum ++ header.signature ++
      Bytes.ofWord32 header.fileSize ++ Bytes.ofWord32 header.size ++
      Bytes.ofWord32 header.endianTag ++ header.linkData.bytes ++
      Bytes.ofWord32 header.mapOffset ++ header.strings.bytes ++ header.types.bytes ++
      header.protos.bytes ++ header.fields.bytes ++ header.methods.bytes ++
      header.classes.bytes ++ header.data.bytes
  byteSize header :=
    header.magic.length + 4 + header.signature.length + 4 + 4 + 4 + (4 + 4) + 4 + 7 * (4 + 4)

end DexArsc.Dex
