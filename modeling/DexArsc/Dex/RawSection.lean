/-
Sections that are kept as bytes. Only the offsets and the indexes inside them are tracked, so
that they follow the other sections. An index that needs more bytes than it was read with is
written with more, and all positions behind it move.
-/

import DexArsc.Dex.ItemRef
import DexArsc.Dex.Relocation

namespace DexArsc.Dex

/-- The ways in which raw bytes hold an index. -/
inductive RawSlot
  | half
  | word
  | leb
  /-- An encoded value: a header byte and the index in one to four bytes. -/
  | value
  deriving DecidableEq

/-- The name of a slot. -/
def RawSlot.name : RawSlot → String
  | half => "U16"
  | word => "U32"
  | leb => "Uleb"
  | value => "Value"

/-- The number of bytes that an index needs. -/
def indexBytes (index : UInt32) : Nat :=
  if index.toNat < 0x100 then 1
  else if index.toNat < 0x10000 then 2
  else if index.toNat < 0x1000000 then 3
  else 4

/-- The bytes of an index in a slot. An index that is still the one read keeps its bytes. -/
def RawSlot.encode (slot : RawSlot) (source : List UInt8) (read index : UInt32) :
    Except Fault (List UInt8) :=
  if index = read then
    .ok source
  else
    match slot with
    | half => return Bytes.ofWord16 (← narrow16 "raw index" index.toNat)
    | word => return Bytes.ofWord32 index
    | leb => return Leb.encode index
    | value =>
      match source with
      | [] => fail (.dex .emptyValue)
      | header :: payload =>
        let size := max (indexBytes index) payload.length
        return (UInt8.ofNat (size - 1) <<< 5 ||| header &&& 0x1f) ::
          (Bytes.ofWord32 index).take size

/-- A place in raw bytes that refers to another section. -/
inductive Fixup
  /-- Four bytes with an offset. -/
  | offset (position : Nat) (origin : UInt32)
  /-- `length` bytes with an index, which was `read`. -/
  | index (position length : Nat) (slot : RawSlot) (read : UInt32) (target : ItemRef)
  deriving DecidableEq

/-- The fixups that a reader finds. -/
abbrev FixupReader := Reader (List Fixup)

namespace FixupReader

/-- The fixups that `count` runs of a reader find. -/
def times (scan : FixupReader) (count : Nat) : FixupReader :=
  return (← scan.replicate count).flatten

/-- An offset slot. Zero needs no fixup. -/
def offset : FixupReader := do
  let position ← Reader.position
  let origin ← Reader.word32
  return if origin = 0 then [] else [.offset position origin]

/-- An index slot. -/
def slot (slot : RawSlot) (read : Reader UInt32) (target : UInt32 → ItemRef) : FixupReader := do
  let position ← Reader.position
  let index ← read
  return [.index position ((← Reader.position) - position) slot index (target index)]

/-- A 16-bit index slot. -/
def half (target : UInt32 → ItemRef) : FixupReader :=
  slot .half (return (← Reader.word16).toUInt32) target

/-- A 32-bit index slot. -/
def word (target : UInt32 → ItemRef) : FixupReader :=
  slot .word Reader.word32 target

/-- A base-128 index slot. -/
def leb (target : UInt32 → ItemRef) : FixupReader :=
  slot .leb Reader.leb target

/-- A reference to a string with an index. -/
def string (index : UInt32) : ItemRef := .string (.ofRaw index)

/-- A reference to a type with an index. -/
def type (index : UInt32) : ItemRef := .type (.ofRaw index)

/-- A reference to a prototype with an index. -/
def proto (index : UInt32) : ItemRef := .proto (.ofRaw index)

/-- A reference to a field with an index. -/
def field (index : UInt32) : ItemRef := .field (.ofRaw index)

/-- A reference to a method with an index. -/
def method (index : UInt32) : ItemRef := .method (.ofRaw index)

/-- The values of an array. -/
def arrayOf (value : FixupReader) : FixupReader := do
  value.times (← Reader.leb).toNat

/-- An annotation: a type and named values. -/
def annotationOf (value : FixupReader) : FixupReader := do
  let type ← leb type
  let element : FixupReader := return (← leb string) ++ (← value)
  return type ++ (← element.times (← Reader.leb).toNat)

/-- The forms of encoded values. -/
inductive ValueForm
  | plain
  | array
  | annotated
  | empty
  | index (target : UInt32 → ItemRef)

/-- The form of a value type. -/
def valueForm? (type : Nat) : Option ValueForm :=
  match type with
  | 0x00 | 0x02 | 0x03 | 0x04 | 0x06 | 0x10 | 0x11 | 0x16 => some .plain
  | 0x15 => some (.index proto)
  | 0x17 => some (.index string)
  | 0x18 => some (.index FixupReader.type)
  | 0x19 | 0x1b => some (.index field)
  | 0x1a => some (.index method)
  | 0x1c => some .array
  | 0x1d => some .annotated
  | 0x1e | 0x1f => some .empty
  | _ => none

/-- Arrays and annotations are nested at most this deep. -/
def maxDepth : Nat := 64

/-- An encoded value that is nested less than `levels` deep. -/
def value : (levels : Nat) → FixupReader
  | 0 => fail (.dex (.nestedTooDeep maxDepth))
  | levels + 1 => do
    let position ← Reader.position
    let header := (← Reader.byte).toNat
    let width := header / 32 + 1
    match valueForm? (header % 32) with
    | none => fail (.dex (.unknownValue (header % 32) position))
    | some .plain =>
      let _ ← Reader.bytes width
      return []
    | some .empty => return []
    | some .array => arrayOf (value levels)
    | some .annotated => annotationOf (value levels)
    | some (.index target) =>
      if 4 < width then
        fail (.dex (.wideIndex position width))
      let read := UInt32.ofNat (Bytes.littleEndian (← Reader.bytes width))
      return [.index position (width + 1) .value read (target read)]

/-- The values of an array that is not nested. -/
def array : FixupReader := arrayOf (value (maxDepth + 1))

/-- An annotation that is not nested. -/
def annotationItem : FixupReader := annotationOf (value (maxDepth + 1))

/-- A method handle: a field for the first four handle types, or else a method. -/
def methodHandle : FixupReader := do
  let type ← Reader.word16
  let _ ← Reader.word16
  let fixups ← half (if type ≤ 3 then field else method)
  let _ ← Reader.word16
  return fixups

/-- A list of offsets behind its size. -/
def offsetList : FixupReader := do
  let _ ← Reader.align 4
  offset.times (← Reader.word32).toNat

/-- The annotations of a class and of its members. -/
def annotationsDirectory : FixupReader := do
  let _ ← Reader.align 4
  let ofClass ← offset
  let fields ← Reader.word32
  let methods ← Reader.word32
  let parameters ← Reader.word32
  let member (target : UInt32 → ItemRef) : FixupReader := return (← word target) ++ (← offset)
  let ofFields ← (member field).times fields.toNat
  let ofMethods ← (member method).times (methods.toNat + parameters.toNat)
  return ofClass ++ ofFields ++ ofMethods

/-- The items of a raw section. A section of another kind has no fixups. -/
def items (kind : SectionKind) (count : Nat) : FixupReader :=
  match kind with
  | .annotationSetRefList | .annotationSet => offsetList.times count
  | .annotationsDirectory => annotationsDirectory.times count
  | .annotationItem => times (do let _ ← Reader.byte; annotationItem) count
  | .encodedArray => array.times count
  | .callSiteId => offset.times count
  | .methodHandle => methodHandle.times count
  | _ => return []

end FixupReader

/-- A section that is kept as bytes: those that were read and those of the current layout. -/
structure RawSection where
  kind : SectionKind
  count : UInt32
  origin : UInt32
  offset : UInt32
  source : Bytes
  bytes : Bytes
  shifts : List Shift := []
  fixups : List Fixup

namespace RawSection

/-- A section with the given bytes, and its fixups. -/
def read (kind : SectionKind) (count origin : UInt32) (bytes : Bytes) :
    Except Fault RawSection := do
  let fixups ← Except.within s!"{kind.title} at 0x{Text.hex origin.toNat}"
    ((FixupReader.items kind count.toNat).run bytes)
  return { kind, count, origin, offset := origin, source := bytes, bytes, fixups }

/-- The current place of a byte of the section. -/
def positionOf (raw : RawSection) (position : UInt32) : UInt32 :=
  shifted raw.shifts position

/-- The section linked to the items that it names. -/
def link (ids : IdSections) (raw : RawSection) : RawSection :=
  { raw with
    fixups := raw.fixups.map fun
      | .index position length slot read target =>
        .index position length slot read (target.link ids)
      | fixup => fixup }

/-- The extent of the section. -/
def extent (raw : RawSection) : Extent where
  origin := raw.origin
  length := UInt32.ofNat raw.source.size
  offset := raw.offset
  shifts := raw.shifts

/-- The bytes from a position on with current indexes, and the shifts among them. A failure
leaves the fixups behind it as they were. -/
def reencode (ids : IdSections) (kind : SectionKind) (source : Bytes) :
    (copied size : Nat) → List Fixup → List Fixup × Except Fault (List UInt8 × List Shift)
  | copied, _, [] => ([], .ok ((source.extract copied source.size).toList, []))
  | copied, size, .offset position origin :: rest =>
    let (fixups, result) := reencode ids kind source copied size rest
    (.offset position origin :: fixups, result)
  | copied, size, .index position length slot read target :: rest =>
    let target := target.refresh ids
    let fixup : Fixup := .index position length slot read target
    let stop := position + length
    let kept := (source.extract copied position).toList
    let encoded : Except Fault (List UInt8 × Nat × List Shift) := do
      let written ← Except.within s!"{kind.title} entry at +0x{Text.hex position}"
        (slot.encode (source.extract position stop).toList read target.raw)
      let size := size + kept.length + written.length
      let shifts ←
        if written.length = length then pure []
        else pure [{ position := ← narrow32 "raw position" stop, distance := size - stop }]
      return (written, size, shifts)
    match encoded with
    | .error fault => (fixup :: rest, .error fault)
    | .ok (written, size, shifts) =>
      let (fixups, result) := reencode ids kind source stop size rest
      (fixup :: fixups, result.map fun (bytes, more) => (kept ++ written ++ bytes, shifts ++ more))

/-- The bytes receive the current index of every target. -/
def refreshIndexes (ids : IdSections) : Step RawSection Unit := do
  let raw ← get
  let (fixups, result) := reencode ids raw.kind raw.source 0 0 raw.fixups
  set { raw with fixups }
  let (bytes, shifts) ← result
  set { raw with fixups, bytes := bytes.toArray, shifts }

/-- The bytes receive the current offset of every target. -/
def relocate (relocator : Relocator) (raw : RawSection) : RawSection :=
  { raw with
    bytes := raw.fixups.foldl (fun bytes fixup =>
      match fixup with
      | .offset position origin =>
        bytes.putWord32 (raw.positionOf (UInt32.ofNat position)).toNat (relocator.relocate origin)
      | .index .. => bytes) raw.bytes }

end RawSection
end DexArsc.Dex
