/-
Writing a dex file. Every section is written at the offset that the layout assigned to it, and
the gaps between the sections are filled.
-/

import DexArsc.Bytes.Digest
import DexArsc.Dex.File.Layout

namespace DexArsc.Dex

/-- What is written, up to an offset that it has not passed. -/
def fillTo (fill : UInt8) (offset : UInt32) (out : Bytes) : Except Fault Bytes :=
  if offset.toNat < out.size then
    fail (.dex (.layoutOverlap offset.toNat out.size))
  else
    .ok (out ++ Array.replicate (offset.toNat - out.size) fill)

/-- What is written, with bytes at an offset behind it. -/
def writeAt (fill : UInt8) (offset : UInt32) (bytes : List UInt8) (out : Bytes) :
    Except Fault Bytes :=
  return bytes.foldl Array.push (← fillTo fill offset out)

/-- What is written, with the items of a section at their offsets. -/
def Section.writeItems {α : Type} (items : Section α) (fill : UInt8)
    (place : (offset : UInt32) → α → UInt32 × List UInt8) (out : Bytes) : Except Fault Bytes :=
  items.entries.foldlM (fun out (id, item) =>
    let (offset, bytes) := place ((items.offsetOf? id).getD 0) item
    writeAt fill offset bytes out) out

/-- What is written, with the items of a section in their byte form. -/
def Section.write {α : Type} [Codec α] (items : Section α) (fill : UInt8) (out : Bytes) :
    Except Fault Bytes :=
  items.writeItems fill (fun offset item => (offset, encode item)) out

namespace DexFile

/-- What is written, with a modelled section. The header is already written. -/
def writeSection (file : DexFile) (fill : UInt8) (kind : SectionKind) (out : Bytes) :
    Except Fault Bytes :=
  match kind with
  | .header => .ok out
  | .mapList => writeAt fill file.header.mapOffset (encode file.map) out
  | .stringId =>
    file.strings.items.writeItems fill
      (fun offset item => (offset, Bytes.ofWord32 item.dataOffset)) out
  | .stringData =>
    file.strings.items.writeItems fill
      (fun _ item => (item.dataOffset, encode item.value)) out
  | .typeId => file.types.items.write fill out
  | .protoId => file.protos.items.write fill out
  | .fieldId => file.fields.items.write fill out
  | .methodId => file.methods.items.write fill out
  | .classDef => file.classDefs.write fill out
  | .typeList => file.typeLists.write fill out
  | .classData => file.classData.write fill out
  | .codeItem => file.codes.write fill out
  | .debugInfo => file.debugInfos.write fill out
  | other => fail (.dex (.noWriter other))

/-- What is written, with a section of the layout. Sections without items are not written. -/
def writeEntry (file : DexFile) (fill : UInt8) (out : Bytes) (entry : LayoutEntry) :
    Except Fault Bytes :=
  if file.countOf entry = 0 then
    .ok out
  else
    match entry with
    | .modelled kind => file.writeSection fill kind out
    | .raw index =>
      match file.raws[index]? with
      | none => .ok out
      | some raw => writeAt fill raw.offset raw.bytes.toList out

/-- The bytes of a file that is laid out. -/
def write (file : DexFile) (fill : UInt8) : Except Fault Bytes := do
  let out ← file.layout.foldlM (file.writeEntry fill) (encode file.header).toArray
  fillTo fill file.header.fileSize out

/-- The position of the signature, which covers all bytes behind it. -/
def signaturePosition : Nat := 12

/-- The position of the checksum, which covers all bytes behind it. -/
def checksumPosition : Nat := 8

/-- The file is laid out and written. The signature and the checksum are computed on demand. -/
def toBytes (options : WriteOptions) : Step DexFile Bytes := do
  refresh options
  let out ← (← get).write options.fill
  if options.updateChecksum then
    let signature := sha1 (out.extract (signaturePosition + 20) out.size)
    let out := out.overwrite signaturePosition signature
    let checksum := adler32 out signaturePosition
    modify fun file => { file with header := { file.header with signature, checksum } }
    return out.putWord32 checksumPosition checksum
  else
    return out

end DexFile
end DexArsc.Dex
