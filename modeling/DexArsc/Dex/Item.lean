/-
The items of the id sections and the type lists, with their byte forms.
-/

import DexArsc.Dex.Reference
import DexArsc.Dex.StringData

namespace DexArsc.Dex

/-- A string id: the string and the place of its data as of the last read or layout. -/
structure StringItem where
  value : StringData
  dataOffset : UInt32 := 0
  deriving Inhabited

/-- A type id: the string with the type's descriptor. -/
structure TypeItem where
  descriptor : IndexRef StringItem

/-- A list of types. -/
structure TypeList where
  types : List (IndexRef TypeItem)

/-- A prototype id: a shorty, a return type and an optional list of parameter types. -/
structure ProtoItem where
  shorty : IndexRef StringItem
  returnType : IndexRef TypeItem
  parameters : OffsetRef TypeList

/-- A field id: a class, a type and a name. -/
structure FieldItem where
  owner : IndexRef TypeItem
  type : IndexRef TypeItem
  name : IndexRef StringItem

/-- A method id: a class, a prototype and a name. -/
structure MethodItem where
  owner : IndexRef TypeItem
  proto : IndexRef ProtoItem
  name : IndexRef StringItem

/-- The sections that references address by index. -/
structure IdSections where
  strings : Section StringItem
  types : Section TypeItem
  protos : Section ProtoItem
  fields : Section FieldItem
  methods : Section MethodItem

/-- Reading yields a 32-bit index slot. -/
def readIndex {α : Type} : Reader (IndexRef α) :=
  return .ofRaw (← Reader.word32)

/-- Reading yields a 16-bit index slot. -/
def readShortIndex {α : Type} : Reader (IndexRef α) :=
  return .ofRaw (← Reader.word16).toUInt32

/-- Reading yields an offset slot. -/
def readOffset {α : Type} : Reader (OffsetRef α) :=
  return .ofRaw (← Reader.word32)

/-- The bytes of a 32-bit index slot. -/
def IndexRef.bytes {α : Type} (ref : IndexRef α) : List UInt8 :=
  Bytes.ofWord32 ref.raw

/-- The bytes of a 16-bit index slot. -/
def IndexRef.shortBytes {α : Type} (ref : IndexRef α) : List UInt8 :=
  Bytes.ofWord16 ref.raw.toUInt16

/-- The bytes of an offset slot. -/
def OffsetRef.bytes {α : Type} (ref : OffsetRef α) : List UInt8 :=
  Bytes.ofWord32 ref.raw

instance : Codec TypeItem where
  read := return { descriptor := ← readIndex }
  encode item := item.descriptor.bytes
  byteSize _ := 4

instance : Codec TypeList where
  read := do
    let size ← Reader.word32
    return { types := ← readShortIndex.replicate size.toNat }
  encode list :=
    Bytes.ofWord32 (UInt32.ofNat list.types.length) ++ list.types.flatMap IndexRef.shortBytes
  byteSize list := 4 + totalSize (fun _ => 2) list.types

instance : Codec ProtoItem where
  read := return {
    shorty := ← readIndex
    returnType := ← readIndex
    parameters := ← readOffset }
  encode item := item.shorty.bytes ++ item.returnType.bytes ++ item.parameters.bytes
  byteSize _ := 4 + 4 + 4

instance : Codec FieldItem where
  read := return {
    owner := ← readShortIndex
    type := ← readShortIndex
    name := ← readIndex }
  encode item := item.owner.shortBytes ++ item.type.shortBytes ++ item.name.bytes
  byteSize _ := 2 + 2 + 4

instance : Codec MethodItem where
  read := return {
    owner := ← readShortIndex
    proto := ← readShortIndex
    name := ← readIndex }
  encode item := item.owner.shortBytes ++ item.proto.shortBytes ++ item.name.bytes
  byteSize _ := 2 + 2 + 4

namespace TypeItem

/-- The type linked to its descriptor. -/
def link (strings : Section StringItem) (item : TypeItem) : TypeItem :=
  { descriptor := item.descriptor.link strings }

/-- The type with its current index slot. -/
def refresh (strings : Section StringItem) (item : TypeItem) : TypeItem :=
  { descriptor := item.descriptor.refresh strings }

end TypeItem

/-- The list linked to its types. -/
def TypeList.link (types : Section TypeItem) (list : TypeList) : TypeList :=
  { types := list.types.map (·.link types) }

namespace ProtoItem

/-- The prototype linked to its parts. -/
def link (strings : Section StringItem) (types : Section TypeItem) (lists : Section TypeList)
    (item : ProtoItem) : ProtoItem where
  shorty := item.shorty.link strings
  returnType := item.returnType.link types
  parameters := item.parameters.link lists

/-- The prototype with its current index slots. -/
def refreshIndexes (strings : Section StringItem) (types : Section TypeItem) (item : ProtoItem) :
    ProtoItem :=
  { item with
    shorty := item.shorty.refresh strings
    returnType := item.returnType.refresh types }

/-- The prototype with its current offset slot. -/
def refreshOffsets (lists : Section TypeList) (item : ProtoItem) : ProtoItem :=
  { item with parameters := item.parameters.refresh lists }

end ProtoItem

namespace FieldItem

/-- The field linked to its parts. -/
def link (strings : Section StringItem) (types : Section TypeItem) (item : FieldItem) :
    FieldItem where
  owner := item.owner.link types
  type := item.type.link types
  name := item.name.link strings

/-- The field with its current index slots. -/
def refresh (strings : Section StringItem) (types : Section TypeItem) (item : FieldItem) :
    FieldItem where
  owner := item.owner.refresh types
  type := item.type.refresh types
  name := item.name.refresh strings

end FieldItem

namespace MethodItem

/-- The method linked to its parts. -/
def link (strings : Section StringItem) (types : Section TypeItem) (protos : Section ProtoItem)
    (item : MethodItem) : MethodItem where
  owner := item.owner.link types
  proto := item.proto.link protos
  name := item.name.link strings

/-- The method with its current index slots. -/
def refresh (strings : Section StringItem) (types : Section TypeItem)
    (protos : Section ProtoItem) (item : MethodItem) : MethodItem where
  owner := item.owner.refresh types
  proto := item.proto.refresh protos
  name := item.name.refresh strings

end MethodItem
end DexArsc.Dex
