/-
Map lists: the sections of a file with their item counts and offsets.
-/

import DexArsc.Bytes.Cursor
import DexArsc.Dex.Kind

namespace DexArsc.Dex

/-- One section of a file. -/
structure MapItem where
  kind : SectionKind
  size : UInt32
  offset : UInt32
  deriving DecidableEq

/-- The sections of a file. -/
structure MapList where
  items : List MapItem := []
  deriving DecidableEq

namespace MapList

/-- The byte size of a map list with a number of entries. -/
def sizeOf (entries : Nat) : Nat :=
  4 + entries * 12

/-- The entries in the order of their offsets, the order of layout. Entries at one offset are in
reading order. -/
def byOffset (map : MapList) : List MapItem :=
  map.items.mergeSort fun a b =>
    a.offset < b.offset || (a.offset == b.offset && a.kind.readRank ≤ b.kind.readRank)

/-- The entry of a section kind. -/
def find? (map : MapList) (kind : SectionKind) : Option MapItem :=
  map.items.find? (·.kind == kind)

/-- Reading yields an entry of a kind that is not listed before. -/
def readItem (before : List MapItem) : Reader MapItem := do
  let kind := SectionKind.ofCode (← Reader.word16)
  let _ ← Reader.word16
  let size ← Reader.word32
  let offset ← Reader.word32
  if before.any (·.kind == kind) then
    fail (.dex (.duplicateMapEntry kind))
  return { kind, size, offset }

/-- Reading yields `count` entries behind those before. -/
def readItems : (count : Nat) → (before : List MapItem) → Reader (List MapItem)
  | 0, before => return before
  | count + 1, before => do
    let item ← readItem before
    readItems count (before ++ [item])

/-- The bytes of an entry. -/
def encodeItem (item : MapItem) : List UInt8 :=
  Bytes.ofWord16 item.kind.code ++ Bytes.ofWord16 0 ++ Bytes.ofWord32 item.size ++
    Bytes.ofWord32 item.offset

instance : Codec MapList where
  read := do
    let size ← Reader.word32
    let remaining ← Reader.remaining
    if remaining < size.toNat * 12 then
      fail (.dex (.mapTooLong size.toNat remaining))
    return { items := ← readItems size.toNat [] }
  encode map := Bytes.ofWord32 (UInt32.ofNat map.items.length) ++ map.items.flatMap encodeItem
  byteSize map := 4 + totalSize (fun _ => 2 + 2 + 4 + 4) map.items

end MapList
end DexArsc.Dex
